import Mathlib.Algebra.Order.Ring.Nat
import Pyrax.Base.Records
import Pyrax.Base.Word
import Pyrax.Types.Primitives

/-!
# Vesting contracts

`pyrax-node/src/tokenomics/vesting.rs`: how much of a grant is vested at a time, and the
manager that creates contracts, pays claims out of them and revokes them. The clock is
read for the id, for each record and for each vested amount anew, and is an argument;
`claim_all` reads it twice for every contract it claims from. The amounts of a schedule
are computed in 128 bits, wide enough not to overflow, and are natural numbers here.
-/

namespace Pyrax.Tokenomics

open Base Word

inductive VestingType where
  | immediate
  | cliffImmediate
  | cliffLinear
  | linear
  | milestone
  | perBlock
  | perAttestation
  deriving DecidableEq

structure VestingSchedule where
  vestingType : VestingType
  cliffDurationSecs : UInt64
  vestingDurationSecs : UInt64
  tgeReleasePercent : UInt8
  description : String
  deriving DecidableEq

namespace VestingSchedule

def immediate : VestingSchedule := ⟨.immediate, 0, 0, 100, "100% at TGE"⟩

def presale : VestingSchedule :=
  ⟨.cliffLinear, 30 * 24 * 60 * 60, 365 * 24 * 60 * 60, 30,
    "30% at TGE, 1 month cliff, 12 month linear vesting"⟩

def bdagCommunity : VestingSchedule :=
  ⟨.cliffLinear, 365 * 24 * 60 * 60, 365 * 24 * 60 * 60, 0,
    "12 month cliff, 12 month linear vesting"⟩

def milestone : VestingSchedule := ⟨.milestone, 0, 0, 0, "Milestone-based, DAO approval"⟩

/-- The part of `total` that `elapsed` of `duration` seconds vest, in millionths rounded
down. -/
def linearPart (total elapsed duration : UInt64) : UInt64 :=
  let vestedRatio := elapsed.toNat * 1000000 / duration.toNat
  UInt64.ofNat (total.toNat * vestedRatio / 1000000)

/-- The match on the type of the schedule. -/
def vestedAfter (s : VestingSchedule) (totalAmount elapsed : UInt64) : UInt64 :=
  match s.vestingType with
  | .immediate => totalAmount
  | .cliffImmediate => if elapsed < s.cliffDurationSecs then 0 else totalAmount
  | .cliffLinear =>
    if elapsed < s.cliffDurationSecs then 0
    else
      let vestingElapsed := elapsed - s.cliffDurationSecs
      if s.vestingDurationSecs ≤ vestingElapsed then totalAmount
      else linearPart totalAmount vestingElapsed s.vestingDurationSecs
  | .linear =>
    if s.vestingDurationSecs ≤ elapsed then totalAmount
    else linearPart totalAmount elapsed s.vestingDurationSecs
  | .milestone | .perBlock | .perAttestation => 0

def calculateVested (s : VestingSchedule) (totalAmount startTimestamp currentTimestamp : UInt64) :
    UInt64 :=
  if currentTimestamp < startTimestamp then 0
  else s.vestedAfter totalAmount (currentTimestamp - startTimestamp)

def tgeAmount (s : VestingSchedule) (totalAmount : UInt64) : UInt64 :=
  mulDiv totalAmount.toNat s.tgeReleasePercent.toNat 100

end VestingSchedule

inductive VestingError where
  | tgeNotSet
  | contractNotFound (id : H256)
  | nothingToClaim
  | notRevocable
  | alreadyRevoked
  | contractRevoked
  deriving DecidableEq

structure VestingContract where
  id : H256
  beneficiary : Address
  totalAmount : UInt64
  releasedAmount : UInt64
  schedule : VestingSchedule
  startTimestamp : UInt64
  revocable : Bool
  revoked : Bool
  revokedAt : Option UInt64
  createdAt : UInt64
  lastClaimAt : Option UInt64
  notes : String
  deriving DecidableEq

namespace VestingContract

def generateId (C : Crypto) (now : UInt64) (beneficiary : Address) (amount : UInt64) : H256 :=
  H256.fromSlice (C.blake3 (beneficiary.asBytes ++ Wire.encU64 amount ++ Wire.encU64 now)).asBytes

def new (C : Crypto) (idAt createdAt : UInt64) (beneficiary : Address) (totalAmount : UInt64)
    (schedule : VestingSchedule) (startTimestamp : UInt64) (revocable : Bool) (notes : String) :
    VestingContract :=
  ⟨generateId C idAt beneficiary totalAmount, beneficiary, totalAmount, 0, schedule,
    startTimestamp, revocable, false, none, createdAt, none, notes⟩

def vestedAmount (c : VestingContract) (now : UInt64) : UInt64 :=
  if c.revoked then c.releasedAmount
  else c.schedule.calculateVested c.totalAmount c.startTimestamp now

def claimableAmount (c : VestingContract) (now : UInt64) : UInt64 :=
  saturatingSub (c.vestedAmount now) c.releasedAmount

/-- The contract and what is paid. The clock is read for the amount and for the record. -/
def claim (c : VestingContract) (now claimedAt : UInt64) :
    Except VestingError (VestingContract × UInt64) :=
  if c.revoked then .error .contractRevoked
  else
    let claimable := c.claimableAmount now
    if claimable = 0 then .error .nothingToClaim
    else .ok ({ c with
      releasedAmount := c.releasedAmount + claimable
      lastClaimAt := some claimedAt }, claimable)

/-- The contract and what goes back. -/
def revoke (c : VestingContract) (now revokedAt : UInt64) :
    Except VestingError (VestingContract × UInt64) :=
  if !c.revocable then .error .notRevocable
  else if c.revoked then .error .alreadyRevoked
  else
    let vested := c.vestedAmount now
    .ok ({ c with
      revoked := true
      revokedAt := some revokedAt
      totalAmount := vested }, c.totalAmount - vested)

end VestingContract

structure VestingStats where
  contractsCreated : UInt64
  contractsRevoked : UInt64
  totalLocked : UInt64
  totalClaimed : UInt64
  deriving DecidableEq

structure VestingManager where
  contracts : Column H256 VestingContract
  byBeneficiary : Column Address (List H256)
  tgeTimestamp : UInt64
  stats : VestingStats
  deriving DecidableEq

namespace VestingManager

def new : VestingManager := ⟨∅, ∅, 0, ⟨0, 0, 0, 0⟩⟩

def setTge (m : VestingManager) (timestamp : UInt64) : VestingManager :=
  { m with tgeTimestamp := timestamp }

/-- The contract put under its id, whatever stands there, and the id under the
beneficiary. -/
def store (m : VestingManager) (c : VestingContract) : VestingManager :=
  { m with
    contracts := m.contracts.insert c.id c
    byBeneficiary := m.byBeneficiary.insert c.beneficiary
      ((m.byBeneficiary.lookup c.beneficiary).getD [] ++ [c.id])
    stats := { m.stats with
      contractsCreated := m.stats.contractsCreated + 1
      totalLocked := m.stats.totalLocked + c.totalAmount } }

def createContract (C : Crypto) (m : VestingManager) (idAt createdAt : UInt64)
    (beneficiary : Address) (totalAmount : UInt64) (schedule : VestingSchedule)
    (revocable : Bool) (notes : String) : Except VestingError (VestingManager × H256) :=
  let start := m.tgeTimestamp
  if start = 0 then .error .tgeNotSet
  else
    let contract := VestingContract.new C idAt createdAt beneficiary totalAmount schedule start
      revocable notes
    .ok (m.store contract, contract.id)

def claim (m : VestingManager) (now claimedAt : UInt64) (contractId : H256) :
    Except VestingError (VestingManager × UInt64) :=
  match m.contracts.lookup contractId with
  | none => .error (.contractNotFound contractId)
  | some contract =>
    match contract.claim now claimedAt with
    | .error e => .error e
    | .ok (contract, claimed) =>
      .ok ({ m with
        contracts := m.contracts.insert contractId contract
        stats := { m.stats with totalClaimed := m.stats.totalClaimed + claimed } }, claimed)

/-- The loop of `claim_all`. The clock gives the two readings of the first claim, of the
second and so on. -/
def claimEach (m : VestingManager) (totalClaimed : UInt64) :
    List H256 → (Nat → UInt64 × UInt64) → VestingManager × UInt64
  | [], _ => (m, totalClaimed)
  | id :: contractIds, clock =>
    match m.claim (clock 0).1 (clock 0).2 id with
    | .ok (m, claimed) => claimEach m (totalClaimed + claimed) contractIds fun i => clock (i + 1)
    | .error _ => claimEach m totalClaimed contractIds fun i => clock (i + 1)

def claimAll (m : VestingManager) (clock : Nat → UInt64 × UInt64) (beneficiary : Address) :
    VestingManager × UInt64 :=
  m.claimEach 0 ((m.byBeneficiary.lookup beneficiary).getD []) clock

def revoke (m : VestingManager) (now revokedAt : UInt64) (contractId : H256) :
    Except VestingError (VestingManager × UInt64) :=
  match m.contracts.lookup contractId with
  | none => .error (.contractNotFound contractId)
  | some contract =>
    match contract.revoke now revokedAt with
    | .error e => .error e
    | .ok (contract, unvested) =>
      .ok ({ m with
        contracts := m.contracts.insert contractId contract
        stats := { m.stats with contractsRevoked := m.stats.contractsRevoked + 1 } }, unvested)

end VestingManager

/-! ## What is vested -/

namespace VestingSchedule

variable {s : VestingSchedule} {total start : UInt64}

theorem linearPart_toNat {elapsed duration : UInt64} (h : elapsed < duration) :
    (linearPart total elapsed duration).toNat
      = total.toNat * (elapsed.toNat * 1000000 / duration.toNat) / 1000000 := by
  have hratio : elapsed.toNat * 1000000 / duration.toNat ≤ 1000000 := by
    refine Nat.div_le_of_le_mul ?_
    exact Nat.mul_le_mul_right _ (UInt64.lt_iff_toNat_lt.mp h).le
  have hle : total.toNat * (elapsed.toNat * 1000000 / duration.toNat) / 1000000 ≤ total.toNat := by
    refine Nat.div_le_of_le_mul ?_
    rw [Nat.mul_comm 1000000]
    exact Nat.mul_le_mul_left _ hratio
  exact UInt64.toNat_ofNat_of_lt' (Nat.lt_of_le_of_lt hle total.toNat_lt)

theorem linearPart_le {elapsed duration : UInt64} (h : elapsed < duration) :
    linearPart total elapsed duration ≤ total := by
  rw [UInt64.le_iff_toNat_le, linearPart_toNat h]
  refine Nat.div_le_of_le_mul ?_
  rw [Nat.mul_comm 1000000]
  refine Nat.mul_le_mul_left _ (Nat.div_le_of_le_mul ?_)
  exact Nat.mul_le_mul_right _ (UInt64.lt_iff_toNat_lt.mp h).le

theorem linearPart_mono {elapsed elapsed' duration : UInt64} (h : elapsed ≤ elapsed')
    (h' : elapsed' < duration) :
    linearPart total elapsed duration ≤ linearPart total elapsed' duration := by
  rw [UInt64.le_iff_toNat_le, linearPart_toNat h', linearPart_toNat (UInt64.lt_of_le_of_lt h h')]
  refine Nat.div_le_div_right (Nat.mul_le_mul_left _ (Nat.div_le_div_right ?_))
  exact Nat.mul_le_mul_right _ (UInt64.le_iff_toNat_le.mp h)

theorem vestedAfter_le (s : VestingSchedule) (total elapsed : UInt64) :
    s.vestedAfter total elapsed ≤ total := by
  unfold vestedAfter
  split
  · exact UInt64.le_refl _
  · split
    · exact UInt64.zero_le
    · exact UInt64.le_refl _
  · split
    · exact UInt64.zero_le
    dsimp only
    split
    · exact UInt64.le_refl _
    · next h => exact linearPart_le (UInt64.not_le.mp h)
  · split
    · exact UInt64.le_refl _
    · next h => exact linearPart_le (UInt64.not_le.mp h)
  all_goals exact UInt64.zero_le

/-- No more vests than was granted. -/
theorem calculateVested_le (s : VestingSchedule) (total start now : UInt64) :
    s.calculateVested total start now ≤ total := by
  unfold calculateVested
  split
  · exact UInt64.zero_le
  · exact s.vestedAfter_le total _

theorem sub_le_sub_right {a b c : UInt64} (h : a ≤ b) (hc : c ≤ a) : a - c ≤ b - c := by
  rw [UInt64.le_iff_toNat_le] at h hc ⊢
  rw [Word.toNat_sub_of_le hc, Word.toNat_sub_of_le (hc.trans h)]
  omega

theorem vestedAfter_mono (s : VestingSchedule) (total : UInt64) {elapsed elapsed' : UInt64}
    (h : elapsed ≤ elapsed') : s.vestedAfter total elapsed ≤ s.vestedAfter total elapsed' := by
  have hle := s.vestedAfter_le total elapsed
  unfold vestedAfter at hle ⊢
  cases htype : s.vestingType with
  | immediate => exact UInt64.le_refl _
  | cliffImmediate =>
    rw [htype] at hle
    dsimp only at hle ⊢
    by_cases hcliff : elapsed < s.cliffDurationSecs
    · rw [if_pos hcliff]
      exact UInt64.zero_le
    · rw [if_neg (fun h' => hcliff (UInt64.lt_of_le_of_lt h h'))]
      exact hle
  | cliffLinear =>
    rw [htype] at hle
    dsimp only at hle ⊢
    by_cases hcliff : elapsed < s.cliffDurationSecs
    · rw [if_pos hcliff]
      exact UInt64.zero_le
    rw [if_neg hcliff] at hle ⊢
    rw [if_neg (fun h' => hcliff (UInt64.lt_of_le_of_lt h h'))]
    have hsub := sub_le_sub_right h (UInt64.not_lt.mp hcliff)
    by_cases hend : s.vestingDurationSecs ≤ elapsed' - s.cliffDurationSecs
    · rw [if_pos hend]
      exact hle
    · rw [if_neg hend, if_neg (fun h' => hend (UInt64.le_trans h' hsub))]
      exact linearPart_mono hsub (UInt64.not_le.mp hend)
  | linear =>
    rw [htype] at hle
    dsimp only at hle ⊢
    by_cases hend : s.vestingDurationSecs ≤ elapsed'
    · rw [if_pos hend]
      exact hle
    · rw [if_neg hend, if_neg (fun h' => hend (UInt64.le_trans h' h))]
      exact linearPart_mono h (UInt64.not_le.mp hend)
  | milestone => exact UInt64.le_refl _
  | perBlock => exact UInt64.le_refl _
  | perAttestation => exact UInt64.le_refl _

/-- What is vested stays vested. -/
theorem calculateVested_mono (s : VestingSchedule) (total start : UInt64) {now now' : UInt64}
    (h : now ≤ now') : s.calculateVested total start now ≤ s.calculateVested total start now' := by
  unfold calculateVested
  by_cases hbefore : now < start
  · rw [if_pos hbefore]
    exact UInt64.zero_le
  · rw [if_neg hbefore, if_neg (fun h' => hbefore (UInt64.lt_of_le_of_lt h h'))]
    exact s.vestedAfter_mono total (sub_le_sub_right h (UInt64.not_lt.mp hbefore))

/-- The schedule vests by time, and is through with it before the clock ends. -/
def Completes (s : VestingSchedule) (start : UInt64) : Prop :=
  match s.vestingType with
  | .immediate => True
  | .cliffImmediate => start.toNat + s.cliffDurationSecs.toNat < 2 ^ 64
  | .cliffLinear =>
    start.toNat + s.cliffDurationSecs.toNat + s.vestingDurationSecs.toNat < 2 ^ 64
  | .linear => start.toNat + s.vestingDurationSecs.toNat < 2 ^ 64
  | .milestone | .perBlock | .perAttestation => False

/-- Milestones and emissions are handled separately. -/
def ByTime (s : VestingSchedule) : Prop :=
  s.vestingType ≠ .milestone ∧ s.vestingType ≠ .perBlock ∧ s.vestingType ≠ .perAttestation

/-- The last second of the clock. -/
def lastSecond : UInt64 := UInt64.ofNat (2 ^ 64 - 1)

theorem le_lastSecond (now : UInt64) : now ≤ lastSecond := by
  rw [UInt64.le_iff_toNat_le]
  have hlt := now.toNat_lt
  show now.toNat ≤ 2 ^ 64 - 1
  omega

theorem toNat_lastSecond_sub (start : UInt64) :
    (lastSecond - start).toNat = 2 ^ 64 - 1 - start.toNat :=
  Word.toNat_sub_of_le (UInt64.le_iff_toNat_le.mp (le_lastSecond start))

/-- In the end everything is vested. -/
theorem calculateVested_lastSecond (h : s.Completes start) :
    s.calculateVested total start lastSecond = total := by
  have helapsed := toNat_lastSecond_sub start
  unfold Completes at h
  rw [calculateVested, if_neg (UInt64.not_lt.mpr (le_lastSecond start)), vestedAfter]
  cases htype : s.vestingType with
  | immediate => rfl
  | cliffImmediate =>
    rw [htype] at h
    refine if_neg ?_
    rw [UInt64.lt_iff_toNat_lt]
    omega
  | cliffLinear =>
    rw [htype] at h
    dsimp only at h ⊢
    have hcliff : s.cliffDurationSecs.toNat ≤ (lastSecond - start).toNat := by omega
    rw [if_neg (UInt64.not_lt.mpr (UInt64.le_iff_toNat_le.mpr hcliff)), if_pos]
    rw [UInt64.le_iff_toNat_le, Word.toNat_sub_of_le hcliff]
    omega
  | linear =>
    rw [htype] at h
    refine if_pos ?_
    rw [UInt64.le_iff_toNat_le]
    omega
  | milestone =>
    rw [htype] at h
    exact h.elim
  | perBlock =>
    rw [htype] at h
    exact h.elim
  | perAttestation =>
    rw [htype] at h
    exact h.elim

theorem linearPart_lt {elapsed duration : UInt64} (h : elapsed < duration) (hsome : total ≠ 0) :
    linearPart total elapsed duration < total := by
  rw [UInt64.lt_iff_toNat_lt] at h ⊢
  rw [linearPart_toNat (UInt64.lt_iff_toNat_lt.mpr h)]
  have hpos : 0 < total.toNat := Nat.pos_of_ne_zero fun h0 => hsome (UInt64.toNat_inj.mp h0)
  have hratio : elapsed.toNat * 1000000 / duration.toNat < 1000000 := by
    refine Nat.div_lt_of_lt_mul ?_
    exact Nat.mul_lt_mul_of_pos_right h (by decide)
  refine Nat.div_lt_of_lt_mul ?_
  rw [Nat.mul_comm 1000000]
  exact Nat.mul_lt_mul_of_pos_left hratio hpos

/-- Only a schedule that is through vests everything in the end. -/
theorem completes_of_calculateVested (h : s.calculateVested total start lastSecond = total)
    (hsome : total ≠ 0) : s.Completes start := by
  have helapsed := toNat_lastSecond_sub start
  have hstart := start.toNat_lt
  rw [calculateVested, if_neg (UInt64.not_lt.mpr (le_lastSecond start)), vestedAfter] at h
  unfold Completes
  cases htype : s.vestingType with
  | immediate => trivial
  | cliffImmediate =>
    rw [htype] at h
    dsimp only at h
    split at h
    · exact absurd h.symm hsome
    next hcliff =>
    rw [UInt64.lt_iff_toNat_lt] at hcliff
    show start.toNat + s.cliffDurationSecs.toNat < 2 ^ 64
    omega
  | cliffLinear =>
    rw [htype] at h
    dsimp only at h
    split at h
    · exact absurd h.symm hsome
    next hcliff =>
    have hcliff' := UInt64.not_lt.mp hcliff
    rw [UInt64.le_iff_toNat_le] at hcliff'
    split at h
    · next hend =>
      rw [UInt64.le_iff_toNat_le, Word.toNat_sub_of_le hcliff'] at hend
      show start.toNat + s.cliffDurationSecs.toNat + s.vestingDurationSecs.toNat < 2 ^ 64
      omega
    · next hend =>
      have hlt := linearPart_lt (UInt64.not_le.mp hend) hsome
      rw [h] at hlt
      exact absurd hlt (UInt64.lt_irrefl _)
  | linear =>
    rw [htype] at h
    dsimp only at h
    split at h
    · next hend =>
      rw [UInt64.le_iff_toNat_le] at hend
      show start.toNat + s.vestingDurationSecs.toNat < 2 ^ 64
      omega
    · next hend =>
      have hlt := linearPart_lt (UInt64.not_le.mp hend) hsome
      rw [h] at hlt
      exact absurd hlt (UInt64.lt_irrefl _)
  | milestone =>
    rw [htype] at h
    exact hsome h.symm
  | perBlock =>
    rw [htype] at h
    exact hsome h.symm
  | perAttestation =>
    rw [htype] at h
    exact hsome h.symm

end VestingSchedule

end Pyrax.Tokenomics
