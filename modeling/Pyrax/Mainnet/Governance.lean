import Pyrax.Base.Records
import Pyrax.Base.Run
import Pyrax.Mainnet.Upgrade

/-!
# Upgrade governance over whole runs

What votes, finalizations, cancellations and blocks make of the proposals. Over every run
the tallies are the sums of the recorded votes, and since nothing schedules an approved
proposal, none is ever activated (`Grounded`). The rest holds under a condition on each
call, and only then (`governed_iff`):

* a vote comes before the voting period is over: `vote` looks at the status alone;
* a proposal that is finalized is open, or rejected already: `finalize` looks at the height
  alone, and would approve a cancelled proposal or list an approved one twice;
* a proposal that is cancelled is not rejected;
* no block reaches the activation height of an approved proposal, because the proposal
  stays where it is.
-/

namespace Pyrax.Mainnet

open Base

variable (approvalPercent : UInt64 → UInt64 → UInt8)

inductive Op where
  | submitProposal (id : H256) (upgradeType : UpgradeType) (proposer : Address)
      (targetVersion : String)
  | vote (id : H256) (voter : Address) (votingPower : UInt64) (support : Bool)
  | finalizeProposal (id : H256)
  | cancelProposal (id : H256) (canceller : Address)
  | processBlock (height : UInt64)
  deriving DecidableEq

/-- The id a call submits. -/
def Op.submitted : Op → Option H256
  | submitProposal id _ _ _ => some id
  | _ => none

/-- A vote as it was cast: on what, by whom and at which block. -/
structure Cast where
  id : H256
  voter : Address
  block : UInt64
  deriving DecidableEq

/-- The manager, the votes it took and the approvals with their heights. -/
structure Traced where
  manager : UpgradeManager
  casts : List Cast
  approvals : List (H256 × UInt64)

namespace Traced

def start (enabled : Bool) (initialVersion : String) : Traced :=
  ⟨UpgradeManager.new enabled initialVersion, [], []⟩

/-- A call that fails changes nothing. -/
def step (t : Traced) : Op → Traced
  | .submitProposal id upgradeType proposer targetVersion =>
    match t.manager.submitProposal id upgradeType proposer targetVersion with
    | .ok m => { t with manager := m }
    | .error _ => t
  | .vote id voter votingPower support =>
    match t.manager.vote id voter votingPower support with
    | .ok m => { t with manager := m, casts := t.casts ++ [⟨id, voter, t.manager.currentBlock⟩] }
    | .error _ => t
  | .finalizeProposal id =>
    match t.manager.finalizeProposal approvalPercent id with
    | .ok (.approved, m) =>
      { t with manager := m, approvals := t.approvals ++ [(id, t.manager.currentBlock)] }
    | .ok (_, m) => { t with manager := m }
    | .error _ => t
  | .cancelProposal id canceller =>
    match t.manager.cancelProposal id canceller with
    | .ok m => { t with manager := m }
    | .error _ => t
  | .processBlock height => { t with manager := (t.manager.processBlock height).2 }

def run (enabled : Bool) (initialVersion : String) (ops : List Op) : Traced :=
  ops.foldl (step approvalPercent) (start enabled initialVersion)

theorem run_snoc (enabled : Bool) (initialVersion : String) (ops : List Op) (op : Op) :
    run approvalPercent enabled initialVersion (ops ++ [op])
      = (run approvalPercent enabled initialVersion ops).step approvalPercent op := by
  rw [run, List.foldl_append]
  rfl

end Traced

/-! ## The law and the condition -/

/-- The power behind a proposal, against it, and altogether. -/
def powerFor (v : Vote) : Nat := if v.support then v.votingPower.toNat else 0

def powerAgainst (v : Vote) : Nat := if v.support then 0 else v.votingPower.toNat

def power (v : Vote) : Nat := v.votingPower.toNat

/-- A proposal waiting for its activation. -/
def UpgradeProposal.Waiting (p : UpgradeProposal) : Prop :=
  p.status = .approved ∨ p.status = .scheduled

/-- A proposal that is done with. -/
def UpgradeProposal.Closed (p : UpgradeProposal) : Prop :=
  p.status = .rejected ∨ p.status = .cancelled ∨ p.status = .activated

/-- Tallies and voters, and the list of what is pending. -/
structure Governed (t : Traced) : Prop where
  votesFor : ∀ id p, t.manager.proposals.lookup id = some p →
    p.votesFor.toNat = Column.total powerFor p.voters
  votesAgainst : ∀ id p, t.manager.proposals.lookup id = some p →
    p.votesAgainst.toNat = Column.total powerAgainst p.voters
  voted : ∀ id p, t.manager.proposals.lookup id = some p → ∀ voter,
    voter ∈ p.voters ↔ ∃ block, ⟨id, voter, block⟩ ∈ t.casts
  inTime : ∀ c ∈ t.casts, ∀ p, t.manager.proposals.lookup c.id = some p → c.block < p.votingEndsAt
  once : t.manager.pending.Nodup
  pending : ∀ id, id ∈ t.manager.pending ↔
    ∃ p, t.manager.proposals.lookup id = some p ∧ p.Waiting

/-- One call: what is closed stays so, only a block activates, after the delay and with the
version, and a block leaves nothing that is due. -/
structure StepGoverned (t : Traced) (op : Op) (t' : Traced) : Prop where
  closed : ∀ id p, t.manager.proposals.lookup id = some p → p.Closed →
    ∃ p', t'.manager.proposals.lookup id = some p' ∧ p'.status = p.status
  activated : ∀ id p', t'.manager.proposals.lookup id = some p' → p'.status = .activated →
    (∃ p, t.manager.proposals.lookup id = some p ∧ p.status = .activated) ∨
      ∃ height approved, op = .processBlock height ∧ (id, approved) ∈ t.approvals ∧
        approved.toNat + UPGRADE_DELAY_BLOCKS.toNat ≤ height.toNat
  version : t'.manager.currentVersion = t.manager.currentVersion ∨
    ∃ id p', t'.manager.proposals.lookup id = some p' ∧ p'.status = .activated ∧
      t'.manager.currentVersion = p'.targetVersion
  due : ∀ height, op = .processBlock height → ∀ id p, t'.manager.proposals.lookup id = some p →
    p.Waiting → ∀ h, p.activationHeight = some h → height < h

/-- The condition on a call, of the manager before it. -/
def Op.Careful (m : UpgradeManager) : Op → Prop
  | .submitProposal .. => True
  | .vote id voter _ _ => ∀ p, m.proposals.lookup id = some p →
    p.status = .voting ∨ p.status = .proposed → voter ∉ p.voters → m.currentBlock < p.votingEndsAt
  | .finalizeProposal id => ∀ p, m.proposals.lookup id = some p → p.votingEndsAt ≤ m.currentBlock →
    p.status = .proposed ∨ p.status = .voting ∨ p.status = .rejected
  | .cancelProposal id canceller => ∀ p, m.proposals.lookup id = some p → canceller = p.proposer →
    p.status ≠ .rejected
  | .processBlock height => ∀ id p, m.proposals.lookup id = some p → p.status = .approved →
    ∀ h, p.activationHeight = some h → height < h

/-! ## What every run keeps -/

/-- What holds of a proposal whatever is called: nothing is on its way to activation, a
verdict is what the tallies say, and the tallies are those of the recorded votes. -/
structure UpgradeProposal.Grounded (casts : List Cast) (id : H256) (p : UpgradeProposal) :
    Prop where
  status : p.status = .proposed ∨ p.status = .voting ∨ p.status = .approved ∨
    p.status = .rejected ∨ p.status = .cancelled
  approved : p.status = .approved → p.isPassed approvalPercent = true
  rejected : p.status = .rejected → p.isPassed approvalPercent = false
  votesFor : p.votesFor.toNat = Column.total powerFor p.voters
  votesAgainst : p.votesAgainst.toNat = Column.total powerAgainst p.voters
  voted : ∀ voter, voter ∈ p.voters ↔ ∃ block, ⟨id, voter, block⟩ ∈ casts

/-- The invariant of all runs. -/
structure Grounded (t : Traced) : Prop where
  proposals : ∀ id p, t.manager.proposals.lookup id = some p →
    p.Grounded approvalPercent t.casts id
  known : ∀ c ∈ t.casts, c.id ∈ t.manager.proposals

variable {approvalPercent} {m : UpgradeManager} {t t' : Traced} {id : H256}
  {p p' : UpgradeProposal} {casts : List Cast}

theorem grounded_start (enabled : Bool) (initialVersion : String) :
    Grounded approvalPercent (Traced.start enabled initialVersion) where
  proposals := by
    intro id p hp
    cases hp
  known := by
    intro c hc
    exact absurd hc List.not_mem_nil

theorem UpgradeProposal.Grounded.not_shouldActivate (h : p.Grounded approvalPercent casts id)
    (height : UInt64) : p.shouldActivate height = false := by
  rw [UpgradeProposal.shouldActivate, if_pos]
  rcases h.status with hs | hs | hs | hs | hs <;> rw [hs] <;> decide

/-- Only an approved proposal waits. -/
theorem UpgradeProposal.Grounded.waiting_iff (h : p.Grounded approvalPercent casts id) :
    p.Waiting ↔ p.status = .approved := by
  unfold UpgradeProposal.Waiting
  rcases h.status with hs | hs | hs | hs | hs <;> rw [hs] <;> decide

/-- A block moves the height and nothing else. -/
theorem processBlock_eq
    (h : ∀ id p, m.proposals.lookup id = some p → p.Grounded approvalPercent casts id)
    (height : UInt64) : m.processBlock height = ([], { m with currentBlock := height }) := by
  have hloop : ∀ ids : List H256, ids.foldl (UpgradeManager.activateOne height)
      ({ m with currentBlock := height }, []) = ({ m with currentBlock := height }, []) := by
    intro ids
    induction ids with
    | nil => rfl
    | cons id ids ih =>
      have hone : UpgradeManager.activateOne height ({ m with currentBlock := height }, []) id
          = ({ m with currentBlock := height }, []) := by
        unfold UpgradeManager.activateOne
        dsimp only
        split
        · rfl
        · next p hp => rw [(h id p hp).not_shouldActivate height, if_neg Bool.false_ne_true]
      rw [List.foldl_cons, hone]
      exact ih
  unfold UpgradeManager.processBlock
  dsimp only
  rw [hloop]
  simp

/-! ### What one call does -/

/-- The manager with a proposal put back. -/
def UpgradeManager.put (m : UpgradeManager) (id : H256) (p : UpgradeProposal) : UpgradeManager :=
  { m with proposals := m.proposals.insert id p }

/-- A proposal with one more vote. -/
def UpgradeProposal.voted (p : UpgradeProposal) (voter : Address) (votingPower : UInt64)
    (support : Bool) : UpgradeProposal :=
  { p with
    voters := p.voters.insert voter ⟨voter, votingPower, support⟩
    totalVoted := p.totalVoted + votingPower
    votesFor := if support then p.votesFor + votingPower else p.votesFor
    votesAgainst := if support then p.votesAgainst else p.votesAgainst + votingPower
    status := .voting }

/-- A proposal that passed at this block. -/
def UpgradeProposal.approvedAt (p : UpgradeProposal) (block : UInt64) : UpgradeProposal :=
  { p with status := .approved, activationHeight := some (block + UPGRADE_DELAY_BLOCKS) }

/-- The proposal takes votes, and this voter has not cast one. -/
def UpgradeProposal.Takes (p : UpgradeProposal) (voter : Address) : Prop :=
  (p.status = .voting ∨ p.status = .proposed) ∧ voter ∉ p.voters

namespace Traced

/-! What comes after each kind of call. -/

def submitted (t : Traced) (id : H256) (upgradeType : UpgradeType) (proposer : Address)
    (version : String) : Traced :=
  let p := UpgradeProposal.new id upgradeType proposer version t.manager.currentBlock
  { t with manager := t.manager.put id p }

def voted (t : Traced) (id : H256) (p : UpgradeProposal) (voter : Address) (votingPower : UInt64)
    (support : Bool) : Traced :=
  { t with
    manager := t.manager.put id (p.voted voter votingPower support)
    casts := t.casts ++ [⟨id, voter, t.manager.currentBlock⟩] }

def approved (t : Traced) (id : H256) (p : UpgradeProposal) : Traced :=
  { t with
    manager := { t.manager.put id (p.approvedAt t.manager.currentBlock) with
      pending := t.manager.pending ++ [id] }
    approvals := t.approvals ++ [(id, t.manager.currentBlock)] }

def rejected (t : Traced) (id : H256) (p : UpgradeProposal) : Traced :=
  { t with manager := t.manager.put id { p with status := .rejected } }

def cancelled (t : Traced) (id : H256) (p : UpgradeProposal) : Traced :=
  { t with manager := { t.manager.put id { p with status := .cancelled } with
      pending := t.manager.pending.filter fun other => other ≠ id } }

def atBlock (t : Traced) (height : UInt64) : Traced :=
  { t with manager := { t.manager with currentBlock := height } }

end Traced

variable (approvalPercent) in
/-- All a call can do. One that changes nothing meets its condition. -/
inductive Outcome (t : Traced) : Op → Traced → Prop
  | nothing {op : Op} (hcareful : op.Careful t.manager) (hblock : ∀ h, op ≠ .processBlock h) :
      Outcome t op t
  | submitted {id : H256} {upgradeType : UpgradeType} {proposer : Address} {version : String} :
      Outcome t (.submitProposal id upgradeType proposer version)
        (t.submitted id upgradeType proposer version)
  | voted {id : H256} {voter : Address} {votingPower : UInt64} {support : Bool}
      {p : UpgradeProposal} (hp : t.manager.proposals.lookup id = some p) (h : p.Takes voter) :
      Outcome t (.vote id voter votingPower support) (t.voted id p voter votingPower support)
  | approved {id : H256} {p : UpgradeProposal} (hp : t.manager.proposals.lookup id = some p)
      (hended : p.votingEndsAt ≤ t.manager.currentBlock)
      (hpassed : p.isPassed approvalPercent = true) :
      Outcome t (.finalizeProposal id) (t.approved id p)
  | rejected {id : H256} {p : UpgradeProposal} (hp : t.manager.proposals.lookup id = some p)
      (hended : p.votingEndsAt ≤ t.manager.currentBlock)
      (hfailed : p.isPassed approvalPercent = false) :
      Outcome t (.finalizeProposal id) (t.rejected id p)
  | cancelled {id : H256} {canceller : Address} {p : UpgradeProposal}
      (hp : t.manager.proposals.lookup id = some p) (hproposer : canceller = p.proposer) :
      Outcome t (.cancelProposal id canceller) (t.cancelled id p)
  | block {height : UInt64} : Outcome t (.processBlock height) (t.atBlock height)

theorem outcome_submit (t : Traced) (id : H256) (upgradeType : UpgradeType) (proposer : Address)
    (version : String) : Outcome approvalPercent t (.submitProposal id upgradeType proposer version)
      (t.step approvalPercent (.submitProposal id upgradeType proposer version)) := by
  rw [Traced.step, UpgradeManager.submitProposal]
  by_cases henabled : t.manager.enabled = false
  · rw [if_pos henabled]
    exact .nothing trivial fun h => by simp
  · rw [if_neg henabled]
    exact .submitted

theorem outcome_vote (t : Traced) (id : H256) (voter : Address) (votingPower : UInt64)
    (support : Bool) : Outcome approvalPercent t (.vote id voter votingPower support)
      (t.step approvalPercent (.vote id voter votingPower support)) := by
  rw [Traced.step, UpgradeManager.vote]
  cases hp : t.manager.proposals.lookup id with
  | none =>
    refine .nothing (fun p h => ?_) fun h => by simp
    rw [hp] at h
    cases h
  | some p =>
    dsimp only
    by_cases htakes : p.Takes voter
    · rw [UpgradeProposal.vote, if_neg (by have := htakes.1; tauto), if_neg htakes.2]
      exact .voted hp htakes
    -- a vote that is refused meets its condition
    · have hcareful : (Op.vote id voter votingPower support).Careful t.manager := by
        intro q hq hopen hnew
        rw [hp] at hq
        obtain rfl := Option.some.inj hq
        exact absurd ⟨hopen, hnew⟩ htakes
      have hrefused : ∃ e, p.vote voter votingPower support = .error e := by
        rw [UpgradeProposal.vote]
        split
        · exact ⟨_, rfl⟩
        · next hopen =>
          rw [if_pos (by unfold UpgradeProposal.Takes at htakes; tauto)]
          exact ⟨_, rfl⟩
      obtain ⟨e, he⟩ := hrefused
      rw [he]
      exact .nothing hcareful fun h => by simp

theorem outcome_finalize (t : Traced) (id : H256) :
    Outcome approvalPercent t (.finalizeProposal id)
      (t.step approvalPercent (.finalizeProposal id)) := by
  rw [Traced.step, UpgradeManager.finalizeProposal]
  cases hp : t.manager.proposals.lookup id with
  | none =>
    refine .nothing (fun p h => ?_) fun h => by simp
    rw [hp] at h
    cases h
  | some p =>
    dsimp only
    rw [UpgradeProposal.finalize, UpgradeProposal.votingEnded]
    by_cases hended : p.votingEndsAt ≤ t.manager.currentBlock
    · rw [decide_eq_true hended, if_neg (by decide)]
      cases hpassed : p.isPassed approvalPercent with
      | true => exact .approved hp hended hpassed
      | false => exact .rejected hp hended hpassed
    · rw [decide_eq_false hended, if_pos rfl]
      refine .nothing (fun q hq h => ?_) fun h => by simp
      rw [hp] at hq
      obtain rfl := Option.some.inj hq
      exact absurd h hended

theorem outcome_cancel (h : Grounded approvalPercent t) (id : H256) (canceller : Address) :
    Outcome approvalPercent t (.cancelProposal id canceller)
      (t.step approvalPercent (.cancelProposal id canceller)) := by
  rw [Traced.step, UpgradeManager.cancelProposal]
  cases hp : t.manager.proposals.lookup id with
  | none =>
    refine .nothing (fun p h => ?_) fun h => by simp
    rw [hp] at h
    cases h
  | some p =>
    dsimp only
    have hstatus : p.status ≠ .activated := by
      rcases (h.proposals id p hp).status with hs | hs | hs | hs | hs <;> rw [hs] <;> decide
    rw [UpgradeProposal.cancel]
    by_cases hproposer : canceller = p.proposer
    · rw [if_neg (not_not.mpr hproposer), if_neg hstatus]
      exact .cancelled hp hproposer
    · rw [if_pos hproposer]
      refine .nothing (fun q hq h => ?_) fun h => by simp
      rw [hp] at hq
      obtain rfl := Option.some.inj hq
      exact absurd h hproposer

theorem step_outcome (h : Grounded approvalPercent t) (op : Op) :
    Outcome approvalPercent t op (t.step approvalPercent op) := by
  cases op with
  | submitProposal id upgradeType proposer version =>
    exact outcome_submit t id upgradeType proposer version
  | vote id voter votingPower support => exact outcome_vote t id voter votingPower support
  | finalizeProposal id => exact outcome_finalize t id
  | cancelProposal id canceller => exact outcome_cancel h id canceller
  | processBlock height =>
    rw [Traced.step, processBlock_eq h.proposals]
    exact .block

/-! ### The invariant -/

/-- A vote that fits adds to the tallies what it adds to the record. -/
theorem UpgradeProposal.Grounded.voted_of (h : p.Grounded approvalPercent casts id)
    {voter : Address} {votingPower : UInt64} {support : Bool} (block : UInt64)
    (htakes : p.Takes voter)
    (hfits : Column.total power (p.voted voter votingPower support).voters < 2 ^ 64) :
    (p.voted voter votingPower support).Grounded approvalPercent
      (casts ++ [⟨id, voter, block⟩]) id := by
  have hsplit : ∀ voters : Column Address Vote,
      Column.total powerFor voters + Column.total powerAgainst voters
        = Column.total power voters := by
    intro voters
    rw [Column.total, Column.total, Column.total, ← Multiset.sum_map_add]
    refine congrArg Multiset.sum (Multiset.map_congr rfl fun e _ => ?_)
    rw [powerFor, powerAgainst, power]
    cases e.2.support <;> simp
  have hinsert : ∀ f : Vote → Nat, Column.total f (p.voted voter votingPower support).voters
      = f ⟨voter, votingPower, support⟩ + Column.total f p.voters := by
    intro f
    exact Column.total_insert_of_notMem f _ htakes.2
  have hold := hsplit p.voters
  rw [← h.votesFor, ← h.votesAgainst] at hold
  rw [hinsert] at hfits
  have hroom : votingPower.toNat + Column.total power p.voters < 2 ^ 64 := hfits
  refine ⟨Or.inr (Or.inl rfl), fun hs => ?_, fun hs => ?_, ?_, ?_, ?_⟩
  · cases hs
  · cases hs
  · rw [hinsert, ← h.votesFor]
    cases support with
    | false => exact (Nat.zero_add _).symm
    | true =>
      show (p.votesFor + votingPower).toNat = votingPower.toNat + p.votesFor.toNat
      rw [UInt64.toNat_add]
      omega
  · rw [hinsert, ← h.votesAgainst]
    cases support with
    | true => exact (Nat.zero_add _).symm
    | false =>
      show (p.votesAgainst + votingPower).toNat = votingPower.toNat + p.votesAgainst.toNat
      rw [UInt64.toNat_add]
      omega
  · intro other
    show other ∈ p.voters.insert voter _ ↔ _
    rw [Finmap.mem_insert, h.voted]
    constructor
    · rintro (rfl | ⟨b, hb⟩)
      · exact ⟨block, List.mem_append_right _ (List.mem_singleton_self _)⟩
      · exact ⟨b, List.mem_append_left _ hb⟩
    · rintro ⟨b, hb⟩
      rcases List.mem_append.mp hb with hb | hb
      · exact Or.inr ⟨b, hb⟩
      · cases List.mem_singleton.mp hb
        exact Or.inl rfl

/-- Putting one proposal back, with what was cast on it. -/
theorem Grounded.put (h : Grounded approvalPercent t) (hmanager : t'.manager.proposals
      = t.manager.proposals.insert id p) (hp : p.Grounded approvalPercent t'.casts id)
    (hcasts : ∀ c, c.id ≠ id → (c ∈ t'.casts ↔ c ∈ t.casts)) : Grounded approvalPercent t' where
  proposals := by
    intro other q hq
    rw [hmanager] at hq
    by_cases hother : other = id
    · subst hother
      rw [Finmap.lookup_insert] at hq
      obtain rfl := Option.some.inj hq
      exact hp
    · rw [Finmap.lookup_insert_of_ne _ hother] at hq
      have hold := h.proposals other q hq
      refine ⟨hold.status, hold.approved, hold.rejected, hold.votesFor, hold.votesAgainst,
        fun voter => ?_⟩
      rw [hold.voted]
      exact exists_congr fun block => (hcasts _ hother).symm
  known := by
    intro c hc
    rw [hmanager, Finmap.mem_insert]
    by_cases hid : c.id = id
    · exact Or.inl hid
    · exact Or.inr (h.known c ((hcasts c hid).mp hc))

/-- A fresh id for what is submitted, and tallies that fit into a word. -/
structure Op.Fits (t : Traced) (op : Op) (t' : Traced) : Prop where
  fresh : ∀ id, op.submitted = some id → id ∉ t.manager.proposals
  totals : ∀ id p, t'.manager.proposals.lookup id = some p → Column.total power p.voters < 2 ^ 64

theorem Outcome.grounded {op : Op} (ho : Outcome approvalPercent t op t')
    (h : Grounded approvalPercent t) (hfits : op.Fits t t') : Grounded approvalPercent t' := by
  cases ho with
  | nothing => exact h
  | @submitted id upgradeType proposer version =>
    refine h.put rfl ⟨Or.inl rfl, fun hs => ?_, fun hs => ?_, rfl, rfl, fun voter => ?_⟩
      fun c _ => Iff.rfl
    · cases hs
    · cases hs
    -- no vote was cast on what was not there
    · refine iff_of_false (Finmap.notMem_empty) ?_
      rintro ⟨block, hc⟩
      exact hfits.fresh id rfl (h.known _ hc)
  | @voted id voter votingPower support p hp htakes =>
    refine h.put rfl ((h.proposals id p hp).voted_of _ htakes ?_) fun c hc => ?_
    · exact hfits.totals id _ (Finmap.lookup_insert _)
    · show c ∈ t.casts ++ [_] ↔ _
      rw [List.mem_append, List.mem_singleton, or_iff_left]
      rintro rfl
      exact hc rfl
  | @approved id p hp hended hpassed =>
    have hold := h.proposals id p hp
    refine h.put rfl ⟨Or.inr (Or.inr (Or.inl rfl)), fun _ => hpassed, fun hs => ?_,
      hold.votesFor, hold.votesAgainst, hold.voted⟩ fun c _ => Iff.rfl
    cases hs
  | @rejected id p hp hended hfailed =>
    have hold := h.proposals id p hp
    refine h.put rfl ⟨Or.inr (Or.inr (Or.inr (Or.inl rfl))), fun hs => ?_, fun _ => hfailed,
      hold.votesFor, hold.votesAgainst, hold.voted⟩ fun c _ => Iff.rfl
    cases hs
  | @cancelled id canceller p hp hproposer =>
    have hold := h.proposals id p hp
    refine h.put rfl ⟨Or.inr (Or.inr (Or.inr (Or.inr rfl))), fun hs => ?_, fun hs => ?_,
      hold.votesFor, hold.votesAgainst, hold.voted⟩ fun c _ => Iff.rfl
    · cases hs
    · cases hs
  | block => exact ⟨h.proposals, h.known⟩

/-! ### The law, one call at a time -/

/-- A call under which no version moves and what is closed stays so, with nothing left due. -/
theorem stepGoverned_of {op : Op} (h' : Grounded approvalPercent t')
    (hversion : t'.manager.currentVersion = t.manager.currentVersion)
    (hclosed : ∀ id p, t.manager.proposals.lookup id = some p → p.Closed →
      ∃ p', t'.manager.proposals.lookup id = some p' ∧ p'.status = p.status)
    (hdue : ∀ height, op = .processBlock height →
      ∀ id p, t'.manager.proposals.lookup id = some p → p.status = .approved →
        ∀ h, p.activationHeight = some h → height < h) : StepGoverned t op t' where
  closed := hclosed
  activated := by
    intro id p hp hs
    rcases (h'.proposals id p hp).status with h | h | h | h | h <;> rw [hs] at h <;> cases h
  version := Or.inl hversion
  due := by
    intro height hop id p hp hwaiting
    exact hdue height hop id p hp ((h'.proposals id p hp).waiting_iff.mp hwaiting)

/-- Putting one proposal back keeps the others closed, and this one iff its status stays. -/
theorem closed_insert_iff {proposals : Column H256 UpgradeProposal}
    (hp : proposals.lookup id = some p) (p' : UpgradeProposal) :
    (∀ other q, proposals.lookup other = some q → q.Closed →
        ∃ q', (proposals.insert id p').lookup other = some q' ∧ q'.status = q.status) ↔
      (p.Closed → p'.status = p.status) := by
  constructor
  · intro h hclosed
    obtain ⟨q', hq', hs⟩ := h id p hp hclosed
    rw [Finmap.lookup_insert] at hq'
    rw [Option.some.inj hq', hs]
  · intro h other q hq hclosed
    by_cases hother : other = id
    · subst hother
      rw [hp] at hq
      obtain rfl := Option.some.inj hq
      exact ⟨p', Finmap.lookup_insert _, h hclosed⟩
    · exact ⟨q, by rw [Finmap.lookup_insert_of_ne _ hother, hq], rfl⟩

/-- The law after a proposal is put back: what is new about time, and about what is pending. -/
theorem Governed.put (h : Governed t) (h' : Grounded approvalPercent t')
    (hmanager : t'.manager.proposals = t.manager.proposals.insert id p)
    (hintime : ∀ c ∈ t'.casts, (c.id = id → c.block < p.votingEndsAt) ∧ (c.id ≠ id → c ∈ t.casts))
    (hothers : ∀ other, other ≠ id → (other ∈ t'.manager.pending ↔ other ∈ t.manager.pending))
    (honce : t'.manager.pending.Nodup) (hpending : id ∈ t'.manager.pending ↔ p.Waiting) :
    Governed t' where
  votesFor := fun other q hq => (h'.proposals other q hq).votesFor
  votesAgainst := fun other q hq => (h'.proposals other q hq).votesAgainst
  voted := fun other q hq => (h'.proposals other q hq).voted
  inTime := by
    intro c hc q hq
    rw [hmanager] at hq
    by_cases hid : c.id = id
    · rw [hid, Finmap.lookup_insert] at hq
      rw [← Option.some.inj hq]
      exact (hintime c hc).1 hid
    · rw [Finmap.lookup_insert_of_ne _ hid] at hq
      exact h.inTime c ((hintime c hc).2 hid) q hq
  once := honce
  pending := by
    intro other
    rw [hmanager]
    by_cases hother : other = id
    · subst hother
      rw [hpending, Finmap.lookup_insert]
      simp
    · rw [hothers other hother, Finmap.lookup_insert_of_ne _ hother]
      exact h.pending other

/-- On a proposal that stands, its own votes came in time. -/
theorem Governed.inTime_same (h : Governed t) (hp : t.manager.proposals.lookup id = some p)
    (hends : p'.votingEndsAt = p.votingEndsAt) :
    ∀ c ∈ t.casts, (c.id = id → c.block < p'.votingEndsAt) ∧ (c.id ≠ id → c ∈ t.casts) := by
  intro c hc
  refine ⟨fun hid => ?_, fun _ => hc⟩
  rw [hends]
  exact h.inTime c hc p (by rw [hid, hp])

/-- A listed proposal is approved. -/
theorem Governed.mem_pending_iff (h : Governed t) (hg : Grounded approvalPercent t)
    (hp : t.manager.proposals.lookup id = some p) :
    id ∈ t.manager.pending ↔ p.status = .approved := by
  rw [h.pending, ← (hg.proposals id p hp).waiting_iff]
  constructor
  · rintro ⟨q, hq, hwaiting⟩
    rw [hp] at hq
    rwa [Option.some.inj hq]
  · intro hwaiting
    exact ⟨p, hp, hwaiting⟩

theorem governed_submitted (h : Governed t) (hg : Grounded approvalPercent t)
    {upgradeType : UpgradeType} {proposer : Address} {version : String}
    (hg' : Grounded approvalPercent (t.submitted id upgradeType proposer version))
    (hfresh : id ∉ t.manager.proposals) :
    Governed (t.submitted id upgradeType proposer version) ∧
      StepGoverned t (.submitProposal id upgradeType proposer version)
        (t.submitted id upgradeType proposer version) := by
  have hother : ∀ other q, t.manager.proposals.lookup other = some q → other ≠ id := by
    rintro other q hq rfl
    exact hfresh (Finmap.mem_of_lookup_eq_some hq)
  refine ⟨h.put hg' rfl ?_ (fun _ _ => Iff.rfl) h.once ?_, stepGoverned_of hg' rfl ?_ ?_⟩
  · intro c hc
    exact ⟨fun hid => absurd (hid ▸ hg.known c hc) hfresh, fun _ => hc⟩
  · refine iff_of_false (fun hlisted => ?_) (fun hwaiting => ?_)
    · obtain ⟨q, hq, -⟩ := (h.pending id).mp hlisted
      exact hother id q hq rfl
    · rcases hwaiting with hs | hs <;> cases hs
  · intro other q hq _
    exact ⟨q, by rw [← hq]; exact Finmap.lookup_insert_of_ne _ (hother other q hq), rfl⟩
  · intro height hop
    cases hop

theorem governed_voted_iff (h : Governed t) (hg : Grounded approvalPercent t) {voter : Address}
    {votingPower : UInt64} {support : Bool} (hp : t.manager.proposals.lookup id = some p)
    (htakes : p.Takes voter)
    (hg' : Grounded approvalPercent (t.voted id p voter votingPower support)) :
    Governed (t.voted id p voter votingPower support) ∧
        StepGoverned t (.vote id voter votingPower support)
          (t.voted id p voter votingPower support) ↔
      (Op.vote id voter votingPower support).Careful t.manager := by
  constructor
  · rintro ⟨hgov, -⟩ q hq _ _
    rw [hp] at hq
    obtain rfl := Option.some.inj hq
    exact hgov.inTime ⟨id, voter, t.manager.currentBlock⟩
      (List.mem_append_right _ (List.mem_singleton_self _)) (p.voted voter votingPower support)
      (Finmap.lookup_insert _)
  · intro hcareful
    refine ⟨h.put hg' rfl ?_ (fun _ _ => Iff.rfl) h.once ?_,
      stepGoverned_of hg' rfl ((closed_insert_iff hp _).mpr ?_) ?_⟩
    · intro c hc
      rcases List.mem_append.mp hc with hc | hc
      · exact h.inTime_same hp rfl c hc
      · cases List.mem_singleton.mp hc
        exact ⟨fun _ => hcareful p hp htakes.1 htakes.2, fun hne => absurd rfl hne⟩
    · refine (h.mem_pending_iff hg hp).trans (iff_of_false ?_ ?_)
      · intro hs
        rcases htakes.1 with ho | ho <;> rw [ho] at hs <;> cases hs
      · rintro (hs | hs) <;> cases hs
    · rintro (hs | hs | hs) <;> rcases htakes.1 with ho | ho <;> rw [ho] at hs <;> cases hs
    · intro height hop
      cases hop

/-- Approving is right of what is still open. -/
theorem governed_approved_iff (h : Governed t) (hg : Grounded approvalPercent t)
    (hp : t.manager.proposals.lookup id = some p) (hended : p.votingEndsAt ≤ t.manager.currentBlock)
    (hpassed : p.isPassed approvalPercent = true)
    (hg' : Grounded approvalPercent (t.approved id p)) :
    Governed (t.approved id p) ∧ StepGoverned t (.finalizeProposal id) (t.approved id p) ↔
      (Op.finalizeProposal id).Careful t.manager := by
  have hlisted := h.mem_pending_iff hg hp
  constructor
  · rintro ⟨hgov, hstep⟩ q hq _
    rw [hp] at hq
    obtain rfl := Option.some.inj hq
    have hclosed := (closed_insert_iff hp (p.approvedAt t.manager.currentBlock)).mp hstep.closed
    rcases (hg.proposals id p hp).status with hs | hs | hs | hs | hs
    · exact Or.inl hs
    · exact Or.inr (Or.inl hs)
    -- a second approval lists it twice
    · have honce : (t.manager.pending ++ [id]).Nodup := hgov.once
      exact absurd (List.mem_singleton_self id)
        ((List.nodup_append.mp honce).2.2 id (hlisted.mpr hs) id · rfl)
    · exact Or.inr (Or.inr hs)
    · have hsame := hclosed (Or.inr (Or.inl hs))
      rw [hs] at hsame
      cases hsame
  · intro hcareful
    have hopen : p.status = .proposed ∨ p.status = .voting := by
      rcases hcareful p hp hended with hs | hs | hs
      · exact Or.inl hs
      · exact Or.inr hs
      · rw [(hg.proposals id p hp).rejected hs] at hpassed
        cases hpassed
    have hnot : id ∉ t.manager.pending := by
      intro hmem
      have hs := hlisted.mp hmem
      rcases hopen with ho | ho <;> rw [ho] at hs <;> cases hs
    refine ⟨h.put hg' rfl (h.inTime_same hp rfl) ?_ ?_ ?_,
      stepGoverned_of hg' rfl ((closed_insert_iff hp _).mpr ?_) ?_⟩
    · intro other hother
      show other ∈ t.manager.pending ++ [id] ↔ _
      rw [List.mem_append, List.mem_singleton, or_iff_left hother]
    · show (t.manager.pending ++ [id]).Nodup
      exact List.nodup_append.mpr ⟨h.once, List.nodup_singleton id, by
        rintro a ha b hb rfl
        exact hnot (List.mem_singleton.mp hb ▸ ha)⟩
    · exact iff_of_true (List.mem_append_right _ (List.mem_singleton_self _)) (Or.inl rfl)
    · rintro (hs | hs | hs) <;> rcases hopen with ho | ho <;> rw [ho] at hs <;> cases hs
    · intro height hop
      cases hop

/-- Rejecting is right of what is not cancelled. -/
theorem governed_rejected_iff (h : Governed t) (hg : Grounded approvalPercent t)
    (hp : t.manager.proposals.lookup id = some p) (hended : p.votingEndsAt ≤ t.manager.currentBlock)
    (hfailed : p.isPassed approvalPercent = false)
    (hg' : Grounded approvalPercent (t.rejected id p)) :
    Governed (t.rejected id p) ∧ StepGoverned t (.finalizeProposal id) (t.rejected id p) ↔
      (Op.finalizeProposal id).Careful t.manager := by
  have hnot : p.status ≠ .approved := by
    intro hs
    rw [(hg.proposals id p hp).approved hs] at hfailed
    cases hfailed
  constructor
  · rintro ⟨-, hstep⟩ q hq _
    rw [hp] at hq
    obtain rfl := Option.some.inj hq
    have hclosed := (closed_insert_iff hp { p with status := .rejected }).mp hstep.closed
    rcases (hg.proposals id p hp).status with hs | hs | hs | hs | hs
    · exact Or.inl hs
    · exact Or.inr (Or.inl hs)
    · exact absurd hs hnot
    · exact Or.inr (Or.inr hs)
    · have hsame := hclosed (Or.inr (Or.inl hs))
      rw [hs] at hsame
      cases hsame
  · intro hcareful
    refine ⟨h.put hg' rfl (h.inTime_same hp rfl) (fun _ _ => Iff.rfl) h.once ?_,
      stepGoverned_of hg' rfl ((closed_insert_iff hp _).mpr ?_) ?_⟩
    · refine (h.mem_pending_iff hg hp).trans (iff_of_false hnot ?_)
      rintro (hs | hs) <;> cases hs
    · rintro (hs | hs | hs)
      · exact hs.symm
      · rcases hcareful p hp hended with ho | ho | ho <;> rw [ho] at hs <;> cases hs
      · rcases hcareful p hp hended with ho | ho | ho <;> rw [ho] at hs <;> cases hs
    · intro height hop
      cases hop

/-- Cancelling is right of what was not rejected. -/
theorem governed_cancelled_iff (h : Governed t) (hg : Grounded approvalPercent t)
    {canceller : Address} (hp : t.manager.proposals.lookup id = some p)
    (hproposer : canceller = p.proposer) (hg' : Grounded approvalPercent (t.cancelled id p)) :
    Governed (t.cancelled id p) ∧
        StepGoverned t (.cancelProposal id canceller) (t.cancelled id p) ↔
      (Op.cancelProposal id canceller).Careful t.manager := by
  constructor
  · rintro ⟨-, hstep⟩ q hq _ hs
    rw [hp] at hq
    obtain rfl := Option.some.inj hq
    have hclosed := (closed_insert_iff hp { p with status := .cancelled }).mp hstep.closed
    have hsame := hclosed (Or.inl hs)
    rw [hs] at hsame
    cases hsame
  · intro hcareful
    refine ⟨h.put hg' rfl (h.inTime_same hp rfl) ?_ (h.once.filter _) ?_,
      stepGoverned_of hg' rfl ((closed_insert_iff hp _).mpr ?_) ?_⟩
    · intro other hother
      show other ∈ t.manager.pending.filter _ ↔ _
      simp [hother]
    · refine iff_of_false ?_ ?_
      · show id ∉ t.manager.pending.filter _
        simp
      · rintro (hs | hs) <;> cases hs
    · rintro (hs | hs | hs)
      · exact absurd hs (hcareful p hp hproposer)
      · exact hs.symm
      · rcases (hg.proposals id p hp).status with ho | ho | ho | ho | ho <;> rw [ho] at hs <;>
          cases hs
    · intro height hop
      cases hop

/-- A block is right when nothing approved is due. -/
theorem governed_block_iff (h : Governed t) {height : UInt64}
    (hg' : Grounded approvalPercent (t.atBlock height)) :
    Governed (t.atBlock height) ∧ StepGoverned t (.processBlock height) (t.atBlock height) ↔
      (Op.processBlock height).Careful t.manager := by
  constructor
  · rintro ⟨-, hstep⟩ id p hp hs
    exact hstep.due height rfl id p hp (Or.inl hs)
  · intro hcareful
    refine ⟨⟨h.votesFor, h.votesAgainst, h.voted, h.inTime, h.once, h.pending⟩,
      stepGoverned_of hg' rfl (fun id p hp _ => ⟨p, hp, rfl⟩) ?_⟩
    intro height' hop
    cases hop
    exact hcareful

/-- **One call.** The law holds after it exactly when it meets its condition. -/
theorem Outcome.governed_step_iff {op : Op} (ho : Outcome approvalPercent t op t')
    (hg : Grounded approvalPercent t) (hfits : op.Fits t t') (h : Governed t) :
    Governed t' ∧ StepGoverned t op t' ↔ op.Careful t.manager := by
  have hg' := ho.grounded hg hfits
  cases ho with
  | nothing hcareful hblock =>
    refine iff_of_true ⟨h, stepGoverned_of hg rfl (fun id p hp _ => ⟨p, hp, rfl⟩) ?_⟩ hcareful
    intro height hop
    exact absurd hop (hblock height)
  | submitted => exact iff_of_true (governed_submitted h hg hg' (hfits.fresh _ rfl)) trivial
  | voted hp htakes => exact governed_voted_iff h hg hp htakes hg'
  | approved hp hended hpassed => exact governed_approved_iff h hg hp hended hpassed hg'
  | rejected hp hended hfailed => exact governed_rejected_iff h hg hp hended hfailed hg'
  | cancelled hp hproposer => exact governed_cancelled_iff h hg hp hproposer hg'
  | block => exact governed_block_iff h hg'

/-! ### Runs -/

/-- An id comes with its submission. -/
theorem Outcome.mem_or_submitted {op : Op} (ho : Outcome approvalPercent t op t')
    (hid : id ∈ t'.manager.proposals) : id ∈ t.manager.proposals ∨ op.submitted = some id := by
  have hput : ∀ {other q q'}, t.manager.proposals.lookup other = some q →
      id ∈ t.manager.proposals.insert other q' → id ∈ t.manager.proposals := by
    intro other q q' hq hmem
    rcases Finmap.mem_insert.mp hmem with rfl | hold
    · exact Finmap.mem_of_lookup_eq_some hq
    · exact hold
  cases ho with
  | nothing => exact Or.inl hid
  | @submitted other =>
    rcases Finmap.mem_insert.mp hid with rfl | hold
    · exact Or.inr rfl
    · exact Or.inl hold
  | voted hp => exact Or.inl (hput hp hid)
  | approved hp => exact Or.inl (hput hp hid)
  | rejected hp => exact Or.inl (hput hp hid)
  | cancelled hp => exact Or.inl (hput hp hid)
  | block => exact Or.inl hid

/-- The powers on every proposal of the manager fit into a word. -/
def UpgradeManager.Counted (m : UpgradeManager) : Prop :=
  ∀ id p, m.proposals.lookup id = some p → Column.total power p.voters < 2 ^ 64

/-- What is said of every proposal is said of every entry. -/
theorem forall_lookup_iff {proposals : Column H256 UpgradeProposal} (Q : UpgradeProposal → Prop) :
    (∀ id p, proposals.lookup id = some p → Q p) ↔ ∀ e ∈ proposals.entries, Q e.2 := by
  constructor
  · intro h e he
    exact h e.1 e.2 (Finmap.lookup_eq_some_iff.mpr he)
  · intro h id p hp
    exact h ⟨id, p⟩ (Finmap.lookup_eq_some_iff.mp hp)

instance (m : UpgradeManager) : Decidable m.Counted :=
  decidable_of_iff (∀ e ∈ m.proposals.entries, Column.total power e.2.voters < 2 ^ 64)
    (forall_lookup_iff fun p => Column.total power p.voters < 2 ^ 64).symm

instance (m : UpgradeManager) : (op : Op) → Decidable (op.Careful m)
  | .submitProposal .. => inferInstanceAs (Decidable True)
  | .vote id voter _ _ => inferInstanceAs (Decidable (∀ p ∈ m.proposals.lookup id,
      p.status = .voting ∨ p.status = .proposed → voter ∉ p.voters →
        m.currentBlock < p.votingEndsAt))
  | .finalizeProposal id => inferInstanceAs (Decidable (∀ p ∈ m.proposals.lookup id,
      p.votingEndsAt ≤ m.currentBlock →
        p.status = .proposed ∨ p.status = .voting ∨ p.status = .rejected))
  | .cancelProposal id canceller => inferInstanceAs (Decidable (∀ p ∈ m.proposals.lookup id,
      canceller = p.proposer → p.status ≠ .rejected))
  | .processBlock height =>
    -- the height that a proposal has, and not all heights there are
    letI (p : UpgradeProposal) : Decidable (∀ h ∈ p.activationHeight, height < h) :=
      Option.decidableForallMem p.activationHeight
    decidable_of_iff (∀ e ∈ m.proposals.entries,
      e.2.status = .approved → ∀ h ∈ e.2.activationHeight, height < h)
      (forall_lookup_iff fun p =>
        p.status = .approved → ∀ h, p.activationHeight = some h → height < h).symm

section Runs

variable {enabled : Bool} {initialVersion : String} {ops : List Op}

/-- The invariant, with where the ids come from. -/
theorem grounded_run (hids : (ops.filterMap Op.submitted).Nodup)
    (htotals : ∀ pre, pre <+: ops →
      (Traced.run approvalPercent enabled initialVersion pre).manager.Counted) :
    ∀ pre, pre <+: ops →
      Grounded approvalPercent (Traced.run approvalPercent enabled initialVersion pre) ∧
      (∀ id, id ∈ (Traced.run approvalPercent enabled initialVersion pre).manager.proposals →
        id ∈ pre.filterMap Op.submitted) ∧
      (∀ op, pre ++ [op] <+: ops →
        op.Fits (Traced.run approvalPercent enabled initialVersion pre)
          (Traced.run approvalPercent enabled initialVersion (pre ++ [op]))) := by
  -- what is known before a call gives that its id is fresh
  have hfits : ∀ pre op, pre ++ [op] <+: ops →
      (∀ id, id ∈ (Traced.run approvalPercent enabled initialVersion pre).manager.proposals →
        id ∈ pre.filterMap Op.submitted) →
      op.Fits (Traced.run approvalPercent enabled initialVersion pre)
        (Traced.run approvalPercent enabled initialVersion (pre ++ [op])) := by
    intro pre op hpre hknown
    refine ⟨fun id hop hmem => ?_, htotals _ hpre⟩
    have hnodup : ((pre ++ [op]).filterMap Op.submitted).Nodup :=
      hids.sublist (hpre.sublist.filterMap _)
    rw [List.filterMap_append, List.nodup_append] at hnodup
    exact hnodup.2.2 id (hknown id hmem) id (by simp [hop]) rfl
  refine forall_prefixes ⟨grounded_start enabled initialVersion, ?_, fun op hpre => ?_⟩ ?_
  · intro id hid
    exact absurd hid (Finmap.notMem_empty)
  · refine hfits [] op hpre fun id hid => ?_
    exact absurd hid (Finmap.notMem_empty)
  · rintro pre op hpre ⟨hg, hknown, hnext⟩
    have ho := step_outcome hg op
    rw [← Traced.run_snoc] at ho
    have hknown' : ∀ id, id ∈ (Traced.run approvalPercent enabled initialVersion
        (pre ++ [op])).manager.proposals → id ∈ (pre ++ [op]).filterMap Op.submitted := by
      intro id hid
      rw [List.filterMap_append, List.mem_append]
      rcases ho.mem_or_submitted hid with hold | hop
      · exact Or.inl (hknown id hold)
      · exact Or.inr (by simp [hop])
    exact ⟨ho.grounded hg (hnext op hpre), hknown', fun op' hpre' => hfits _ op' hpre' hknown'⟩

/-- **Governance.** In every run of the manager the tallies are those of the recorded
voters, all in time, what is closed stays closed, the pending list is that of the waiting
proposals, and a block leaves nothing due, exactly when every call meets its condition. -/
theorem governed_iff (hids : (ops.filterMap Op.submitted).Nodup)
    (htotals : ∀ pre, pre <+: ops →
      (Traced.run approvalPercent enabled initialVersion pre).manager.Counted) :
    ((∀ pre, pre <+: ops → Governed (Traced.run approvalPercent enabled initialVersion pre)) ∧
      ∀ pre op, pre ++ [op] <+: ops →
        StepGoverned (Traced.run approvalPercent enabled initialVersion pre) op
          (Traced.run approvalPercent enabled initialVersion (pre ++ [op]))) ↔
      ∀ pre op, pre ++ [op] <+: ops →
        op.Careful (Traced.run approvalPercent enabled initialVersion pre).manager := by
  have hrun := @grounded_run _ enabled initialVersion _ hids htotals
  have hstep : ∀ pre op, pre ++ [op] <+: ops →
      Governed (Traced.run approvalPercent enabled initialVersion pre) →
      (Governed (Traced.run approvalPercent enabled initialVersion (pre ++ [op])) ∧
        StepGoverned (Traced.run approvalPercent enabled initialVersion pre) op
          (Traced.run approvalPercent enabled initialVersion (pre ++ [op])) ↔
        op.Careful (Traced.run approvalPercent enabled initialVersion pre).manager) := by
    intro pre op hpre h
    obtain ⟨hg, -, hfits⟩ := hrun pre ((List.prefix_append pre [op]).trans hpre)
    have ho := step_outcome hg op
    rw [← Traced.run_snoc] at ho
    exact ho.governed_step_iff hg (hfits op hpre) h
  constructor
  · rintro ⟨hgov, hlaw⟩ pre op hpre
    exact (hstep pre op hpre (hgov pre ((List.prefix_append pre [op]).trans hpre))).mp
      ⟨hgov _ hpre, hlaw pre op hpre⟩
  · intro hcareful
    have hgov : ∀ pre, pre <+: ops →
        Governed (Traced.run approvalPercent enabled initialVersion pre) := by
      refine forall_prefixes ?_ fun pre op hpre h =>
        ((hstep pre op hpre h).mpr (hcareful pre op hpre)).1
      refine ⟨?_, ?_, ?_, ?_, List.nodup_nil, fun id => ?_⟩
      · intro id p hp
        cases hp
      · intro id p hp
        cases hp
      · intro id p hp
        cases hp
      · intro c hc
        exact absurd hc List.not_mem_nil
      · refine iff_of_false List.not_mem_nil ?_
        rintro ⟨p, hp, -⟩
        cases hp
    refine ⟨hgov, fun pre op hpre => ?_⟩
    exact ((hstep pre op hpre (hgov pre ((List.prefix_append pre [op]).trans hpre))).mpr
      (hcareful pre op hpre)).2

end Runs

/-- A share in whole percent, rounded down. -/
def wholePercent (votesFor totalVoted : UInt64) : UInt8 :=
  if totalVoted = 0 then 0 else (votesFor * 100 / totalVoted).toUInt8

/-- A soft fork that passes, waits, and is called off before its height. -/
def calledOff (proposer : Address) : List Op :=
  [.submitProposal .zero .softFork proposer "2", .vote .zero proposer 10 true,
    .processBlock 14400, .finalizeProposal .zero, .processBlock 14401,
    .cancelProposal .zero proposer]

theorem governed_called_off :
    (∀ pre, pre <+: calledOff ⟨Vector.replicate 20 0⟩ →
        Governed (Traced.run wholePercent true "1" pre)) ∧
      ∀ pre op, pre ++ [op] <+: calledOff ⟨Vector.replicate 20 0⟩ →
        StepGoverned (Traced.run wholePercent true "1" pre) op
          (Traced.run wholePercent true "1" (pre ++ [op])) := by
  have hcounted : ∀ k ≤ 6, (Traced.run wholePercent true "1"
      ((calledOff ⟨Vector.replicate 20 0⟩).take k)).manager.Counted := by decide
  refine (governed_iff (by decide) fun pre hpre => ?_).mpr
    (forall_prefixes_snoc (by decide +kernel))
  rw [List.prefix_iff_eq_take.mp hpre]
  exact hcounted _ hpre.length_le

/-- The same soft fork, finalized twice and left standing at its height. -/
def leftStanding (proposer : Address) : List Op :=
  [.submitProposal .zero .softFork proposer "2", .vote .zero proposer 10 true,
    .processBlock 14400, .finalizeProposal .zero, .finalizeProposal .zero, .processBlock 21600]

theorem not_governed_left_standing :
    ((leftStanding ⟨Vector.replicate 20 0⟩).filterMap Op.submitted).Nodup ∧
      (∀ k ≤ 6, (Traced.run wholePercent true "1"
        ((leftStanding ⟨Vector.replicate 20 0⟩).take k)).manager.Counted) ∧
      ¬ Governed (Traced.run wholePercent true "1" (leftStanding ⟨Vector.replicate 20 0⟩)) ∧
      ¬ StepGoverned (Traced.run wholePercent true "1"
          ((leftStanding ⟨Vector.replicate 20 0⟩).take 5)) (.processBlock 21600)
        (Traced.run wholePercent true "1" (leftStanding ⟨Vector.replicate 20 0⟩)) := by
  refine ⟨by decide, by decide, fun h => ?_, fun h => ?_⟩
  · exact absurd h.once (by decide)
  · have hstanding : ∃ p, (Traced.run wholePercent true "1"
        (leftStanding ⟨Vector.replicate 20 0⟩)).manager.proposals.lookup .zero = some p ∧
        p.status = .approved ∧ p.activationHeight = some 21600 := ⟨_, rfl, by decide, by decide⟩
    obtain ⟨p, hp, hs, hheight⟩ := hstanding
    exact absurd (h.due 21600 rfl .zero p hp (Or.inl hs) 21600 hheight) (by decide)

end Pyrax.Mainnet
