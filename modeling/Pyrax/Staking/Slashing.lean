import Pyrax.Base.Run
import Pyrax.Staking.Validator

/-!
# Slashing

`pyrax-node/src/consensus/staking/slashing.rs`: evidence of an offense, and
`submit_evidence`, which slashes the validator, jails it and, for a severe
offense, tombstones it. A tombstoned validator is meant to stay so: `tombstone`
says "cannot unjail", and `unjail` refuses it.

`submit_evidence` jails before it looks at the offense, and `jail` overwrites the
status. Evidence of a lesser offense therefore turns a tombstone into a jail
term, after which `unjail` lets the validator out. `tombstoned_stays_iff`: that is
the only way out. Downtime tracking, which only produces evidence, is not
modelled.
-/

namespace Pyrax.Staking

open Base Word

inductive SlashingOffense where
  | doubleSign
  | doubleVote
  | downtime
  | invalidBlock
  | equivocation
  deriving DecidableEq, Repr

namespace SlashingOffense

def slashPercent : SlashingOffense → UInt8
  | doubleSign => DOUBLE_SIGN_SLASH_PERCENT
  | doubleVote => DOUBLE_SIGN_SLASH_PERCENT
  | downtime => 0
  | invalidBlock => 1
  | equivocation => DOUBLE_SIGN_SLASH_PERCENT

def isTombstonable : SlashingOffense → Bool
  | doubleSign | doubleVote | equivocation => true
  | downtime | invalidBlock => false

def jailDuration : SlashingOffense → UInt64
  | doubleSign => JAIL_DURATION_SECS * 30
  | doubleVote => JAIL_DURATION_SECS * 30
  | downtime => JAIL_DURATION_SECS
  | invalidBlock => JAIL_DURATION_SECS * 7
  | equivocation => JAIL_DURATION_SECS * 30

/-- `offense as u8`. -/
def discriminant : SlashingOffense → UInt8
  | doubleSign => 0
  | doubleVote => 1
  | downtime => 2
  | invalidBlock => 3
  | equivocation => 4

end SlashingOffense

structure SlashingEvidence where
  offense : SlashingOffense
  validator : Address
  height : UInt64
  evidenceA : H256
  evidenceB : H256
  signatureA : List UInt8
  signatureB : List UInt8
  submittedAt : UInt64
  reporter : Address
  deriving DecidableEq

namespace SlashingEvidence

/-- `verify`: no signature is looked at. -/
def verify (e : SlashingEvidence) : Bool :=
  match e.offense with
  | .doubleSign | .doubleVote => e.evidenceA ≠ e.evidenceB
  | .downtime => true
  | .invalidBlock | .equivocation => e.evidenceA ≠ H256.zero

def hash (C : Crypto) (e : SlashingEvidence) : H256 :=
  C.blake3 (e.offense.discriminant :: e.validator.asBytes ++ toBeBytes e.height ++
    e.evidenceA.asBytes ++ e.evidenceB.asBytes)

end SlashingEvidence

structure SlashingRecord where
  evidenceHash : H256
  offense : SlashingOffense
  validator : Address
  amountSlashed : UInt64
  jailed : Bool
  tombstoned : Bool
  jailUntil : Option UInt64
  reporterReward : UInt64
  reporter : Address
  slashedAt : UInt64
  slashedHeight : UInt64
  deriving DecidableEq

structure SlashingManager where
  records : List SlashingRecord
  evidenceHashes : Column H256 Bool
  reporterRewardPercent : UInt8

inductive SlashingError where
  | invalidEvidence
  | duplicateEvidence
  deriving DecidableEq

namespace SlashingManager

def new : SlashingManager := ⟨[], ∅, 5⟩

/-- The validator after its penalty, and the amount the record will name. For
downtime the amount is computed and nothing is taken. -/
def penalize (e : SlashingEvidence) (v : Validator) : Validator × UInt64 :=
  if e.offense = .downtime then
    (v, mulDiv v.selfStake.toNat DOWNTIME_SLASH_PERCENT_TENTHS.toNat 1000)
  else v.slash e.offense.slashPercent

/-- Jailed always, and tombstoned on top of it for a severe offense. -/
def confine (e : SlashingEvidence) (now : UInt64) (v : Validator) : Validator :=
  if e.offense.isTombstonable then (v.jail now e.offense.jailDuration).tombstone
  else v.jail now e.offense.jailDuration

/-- The record of a slashing, `v` being the validator as it was left. -/
def record (C : Crypto) (m : SlashingManager) (slashedAt : UInt64) (e : SlashingEvidence)
    (amount : UInt64) (v : Validator) : SlashingRecord where
  evidenceHash := e.hash C
  offense := e.offense
  validator := e.validator
  amountSlashed := amount
  jailed := true
  tombstoned := e.offense.isTombstonable
  jailUntil := v.jailUntil
  reporterReward := mulDiv amount.toNat m.reporterRewardPercent.toNat 100
  reporter := e.reporter
  slashedAt := slashedAt
  slashedHeight := e.height

/-- `submit_evidence`. The clock is read by `jail` and again for the record. -/
def submitEvidence (C : Crypto) (m : SlashingManager) (now slashedAt : UInt64)
    (e : SlashingEvidence) (v : Validator) :
    Except SlashingError (SlashingManager × Validator × SlashingRecord) :=
  if e.verify = false then .error .invalidEvidence
  else if e.hash C ∈ m.evidenceHashes then .error .duplicateEvidence
  else
    let (slashed, amount) := penalize e v
    let confined := confine e now slashed
    let entry := m.record C slashedAt e amount confined
    .ok ({ m with
        records := m.records ++ [entry]
        evidenceHashes := m.evidenceHashes.insert (e.hash C) true }, confined, entry)

/-- What is not turned away as invalid or already known. -/
def Accepts (C : Crypto) (m : SlashingManager) (e : SlashingEvidence) : Prop :=
  e.verify = true ∧ e.hash C ∉ m.evidenceHashes

instance (C : Crypto) (m : SlashingManager) (e : SlashingEvidence) : Decidable (m.Accepts C e) :=
  inferInstanceAs (Decidable (_ ∧ _))

variable {C : Crypto} {m : SlashingManager} {e : SlashingEvidence}

theorem submitEvidence_of_accepts (h : m.Accepts C e) (now slashedAt : UInt64) (v : Validator) :
    ∃ m' entry, m.submitEvidence C now slashedAt e v
      = .ok (m', confine e now (penalize e v).1, entry) := by
  unfold submitEvidence
  rw [if_neg (by rw [h.1]; exact Bool.noConfusion), if_neg h.2]
  exact ⟨_, _, rfl⟩

theorem submitEvidence_of_not_accepts (h : ¬ m.Accepts C e) (now slashedAt : UInt64)
    (v : Validator) : ∃ err, m.submitEvidence C now slashedAt e v = .error err := by
  unfold submitEvidence
  split
  · exact ⟨_, rfl⟩
  · next hv =>
    rw [if_pos (not_not.mp fun hk => h ⟨Bool.not_eq_false _ ▸ hv, hk⟩)]
    exact ⟨_, rfl⟩

end SlashingManager

/-! ## Calls on one validator -/

/-- The manager and the one validator its evidence is about. -/
structure SlashingState where
  manager : SlashingManager
  validator : Validator

/-- A call with its clock readings. -/
inductive SlashingOp where
  | submitEvidence (now slashedAt : UInt64) (e : SlashingEvidence)
  | unjail (now : UInt64)

namespace SlashingOp

/-- A refused call changes nothing. -/
def apply (C : Crypto) (s : SlashingState) : SlashingOp → SlashingState
  | submitEvidence now slashedAt e =>
    match s.manager.submitEvidence C now slashedAt e s.validator with
    | .ok (m, v, _) => ⟨m, v⟩
    | .error _ => s
  | unjail now =>
    match s.validator.unjail now with
    | .ok v => { s with validator := v }
    | .error _ => s

def run (C : Crypto) (s : SlashingState) (ops : List SlashingOp) : SlashingState :=
  ops.foldl (apply C) s

/-- The call would put a lesser penalty in the place of a tombstone. -/
def Lifts (C : Crypto) (s : SlashingState) : SlashingOp → Prop
  | submitEvidence _ _ e =>
    s.validator.status = .tombstoned ∧ s.manager.Accepts C e ∧ e.offense.isTombstonable = false
  | unjail _ => False

variable {C : Crypto} {s : SlashingState} {ops : List SlashingOp} {op : SlashingOp}

theorem run_snoc : run C s (ops ++ [op]) = apply C (run C s ops) op := by
  rw [run, List.foldl_append]
  rfl

/-- Accepted evidence sets the status by its offense alone. -/
theorem status_submitEvidence {now slashedAt : UInt64} {e : SlashingEvidence} :
    (apply C s (submitEvidence now slashedAt e)).validator.status =
      if s.manager.Accepts C e then
        if e.offense.isTombstonable then .tombstoned else .jailed
      else s.validator.status := by
  by_cases h : s.manager.Accepts C e
  · obtain ⟨m', entry, hok⟩ :=
      SlashingManager.submitEvidence_of_accepts h now slashedAt s.validator
    rw [if_pos h, apply, hok]
    show (SlashingManager.confine e now _).status = _
    unfold SlashingManager.confine
    split
    · rfl
    · rfl
  · obtain ⟨err, herr⟩ :=
      SlashingManager.submitEvidence_of_not_accepts h now slashedAt s.validator
    rw [if_neg h, apply, herr]

/-- **One call** on a tombstoned validator leaves it so, or is one that lifts. -/
theorem tombstoned_apply (h : s.validator.status = .tombstoned) :
    (apply C s op).validator.status = .tombstoned ↔ ¬ op.Lifts C s := by
  cases op with
  | submitEvidence now slashedAt e =>
    rw [status_submitEvidence]
    show _ ↔ ¬ (s.validator.status = .tombstoned ∧ s.manager.Accepts C e ∧ _)
    split
    · next hacc =>
      split
      · next ht => simp [ht]
      · next ht => simp [h, hacc, ht]
    · next hacc => simp [h, hacc]
  | unjail now =>
    rw [apply]
    split
    · next v hok => exact absurd h (Validator.unjail_ok_iff.mp hok).2.1
    · next => exact iff_of_true h not_false

/-- **Tombstones.** From any manager and validator, a tombstoned validator is
tombstoned after all further calls exactly when no call of the run brings
acceptable evidence of a lesser offense against it while it is. -/
theorem tombstoned_stays_iff (C : Crypto) (s : SlashingState) (ops : List SlashingOp) :
    (∀ pre post, pre ++ post <+: ops → (run C s pre).validator.status = .tombstoned →
      (run C s (pre ++ post)).validator.status = .tombstoned) ↔
    ∀ pre op, pre ++ [op] <+: ops → ¬ op.Lifts C (run C s pre) := by
  rw [forall_later_iff (R := fun a b => (run C s a).validator.status = .tombstoned →
    (run C s b).validator.status = .tombstoned) (fun _ h => h) fun _ _ _ h h' ha => h' (h ha)]
  refine forall_congr' fun pre => forall_congr' fun op => imp_congr_right fun _ => ?_
  rw [run_snoc]
  constructor
  · intro h hlifts
    have ht : (run C s pre).validator.status = .tombstoned := by
      cases op with
      | submitEvidence => exact hlifts.1
      | unjail => exact hlifts.elim
    exact (tombstoned_apply ht).mp (h ht) hlifts
  · exact fun h ht => (tombstoned_apply ht).mpr h

/-! ## Out of the tombstone -/

/-- The active validator of the source's tests. -/
def caughtValidator : Validator :=
  { Validator.new 0 (testAddress 1) (testAddress 1) (Vector.replicate 32 0) 1000000000000 500
      "Test Validator" with status := .active }

/-- `double_sign` as in the source's tests. -/
def doubleSignEvidence : SlashingEvidence where
  offense := .doubleSign
  validator := testAddress 1
  height := 100
  evidenceA := ⟨Vector.replicate 32 1⟩
  evidenceB := ⟨Vector.replicate 32 2⟩
  signatureA := List.replicate 64 0
  signatureB := List.replicate 64 0
  submittedAt := 0
  reporter := testAddress 2

/-- `downtime` for the same height. -/
def downtimeEvidence : SlashingEvidence where
  offense := .downtime
  validator := testAddress 1
  height := 100
  evidenceA := H256.zero
  evidenceB := H256.zero
  signatureA := []
  signatureB := []
  submittedAt := 0
  reporter := Address.ZERO

/-- BLAKE3 of the two. -/
def evidenceCrypto : Crypto := Crypto.ofTable
  [(0 :: List.replicate 20 1 ++ [0, 0, 0, 0, 0, 0, 0, 100] ++ List.replicate 32 1 ++
      List.replicate 32 2,
    H256.ofNatBE 0x82790206bc98529209e8e29e0b1d8b305ce2e3d806e1569103d4d3f034897df1),
   (2 :: List.replicate 20 1 ++ [0, 0, 0, 0, 0, 0, 0, 100] ++ List.replicate 64 0,
    H256.ofNatBE 0x7300bb1ffaadf48d3126364de37d5c3f904ecdaa28b9623705137b82a7fdc2d0)]

/-- Caught signing twice, then reported offline: tombstoned, jailed for a day, and
out the day after. -/
theorem tombstone_lifted :
    let start : SlashingState := ⟨SlashingManager.new, caughtValidator⟩
    let twice := submitEvidence 1000 1000 doubleSignEvidence
    let offline := submitEvidence 2000 2000 downtimeEvidence
    (run evidenceCrypto start [twice]).validator.status = .tombstoned ∧
      (run evidenceCrypto start [twice, offline]).validator.status = .jailed ∧
      (run evidenceCrypto start [twice, offline, unjail 100000]).validator.status = .inactive := by
  decide +kernel

end SlashingOp

end Pyrax.Staking
