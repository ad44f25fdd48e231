import Pyrax.Base.Sums
import Pyrax.Staking.Intersection
import Pyrax.Staking.Totals

/-!
# Epochs and rewards

The rest of `staking/registry.rs`: `advance_epoch` takes the set of an epoch from the active
validators, and `distribute_rewards` shares a pot out by the powers in that set, each share
between the validator's commission and the stakes that are bonded to it now. A pass over a
hash map is given the order in which the map yields its keys.

All three divisions round down, so what a step adds can be bounded step by step (`Adds`): a
validator's commission and the rest of its share, which its stakes have between them
(`adds_delegators`), are no more than the share, and the shares no more than the pot as long
as the members' powers are no more than the set's total (`Covers`). Validators and stakes
may have changed since the set was taken: a bound on each share does not need them. But the
total is added with `+=`, and a set whose powers wrap it gives out more than the pot.
-/

namespace Pyrax.Staking

open Base Word

namespace Validator

def addRewards (v : Validator) (amount : UInt64) : Validator :=
  { v with pendingRewards := saturatingAdd v.pendingRewards amount }

end Validator

namespace Stake

def addRewards (s : Stake) (amount : UInt64) : Stake :=
  { s with rewards := saturatingAdd s.rewards amount }

/-- The stake, and what was withdrawn. -/
def withdrawRewards (s : Stake) : Stake × UInt64 := ({ s with rewards := 0 }, s.rewards)

end Stake

namespace StakingRegistry

def getActiveValidators (r : StakingRegistry) (order : Column.KeyOrder Address Validator) :
    List Validator :=
  ((order.entries r.validators).map Prod.snd).filter fun v => v.status = .active

/-- `v.add_rewards(commission)` on the validator's record, if it is there. -/
def addCommission (r : StakingRegistry) (addr : Address) (commission : UInt64) :
    StakingRegistry :=
  match r.validators.lookup addr with
  | some v => { r with validators := r.validators.insert addr (v.addRewards commission) }
  | none => r

/-- `stake.add_rewards(share)` on one stake's record, if it is there. -/
def addShare (r : StakingRegistry) (staker validatorAddr : Address) (share : UInt64) :
    StakingRegistry :=
  match r.getStake staker validatorAddr with
  | some stake => r.putStake staker validatorAddr (stake.addRewards share)
  | none => r

/-- The stakes that are bonded to a validator, with their amounts. -/
def delegators (r : StakingRegistry) (order : Column.KeyOrder Address (Column Address Stake))
    (validatorAddr : Address) : List (Address × UInt64) :=
  (order.entries r.stakes).filterMap fun entry =>
    match entry.2.lookup validatorAddr with
    | some stake => if stake.status = .bonded then some (entry.1, stake.amount) else none
    | none => none

/-- `total_delegated`, added with `+=`. -/
def totalDelegated (delegators : List (Address × UInt64)) : UInt64 :=
  delegators.foldl (fun total delegator => total + delegator.2) 0

def distributeToDelegators (order : Column.KeyOrder Address (Column Address Stake))
    (r : StakingRegistry) (validatorAddr : Address) (amount : UInt64) : StakingRegistry :=
  let delegators := r.delegators order validatorAddr
  if totalDelegated delegators = 0 then r
  else
    delegators.foldl (fun r delegator =>
      r.addShare delegator.1 validatorAddr
        (mulDiv amount.toNat delegator.2.toNat (totalDelegated delegators).toNat)) r

/-- One member of the set: its commission and what is left for its stakes. A member who is
not in the table, or no validator any more, is passed over. -/
def rewardEntry (r : StakingRegistry) (set : ValidatorSet) (totalRewards : UInt64)
    (addr : Address) : Option (Address × UInt64 × UInt64) := do
  let power ← set.votingPower.lookup addr
  let share := mulDiv totalRewards.toNat power.toNat set.totalVotingPower.toNat
  let validator ← r.validators.lookup addr
  let commission := mulDiv share.toNat validator.commissionBps.toNat 10000
  some (addr, commission, saturatingSub share commission)

def applyReward (order : Column.KeyOrder Address (Column Address Stake)) (r : StakingRegistry)
    (entry : Address × UInt64 × UInt64) : StakingRegistry :=
  distributeToDelegators order (r.addCommission entry.1 entry.2.1) entry.1 entry.2.2

def distributeRewards (r : StakingRegistry) (set : ValidatorSet)
    (order : Column.KeyOrder Address (Column Address Stake)) (totalRewards : UInt64) :
    StakingRegistry :=
  if set.totalVotingPower = 0 then r
  else (set.validators.filterMap (r.rewardEntry set totalRewards)).foldl (applyReward order) r

def claimRewards (r : StakingRegistry) (staker validatorAddr : Address) :
    Except StakingError (StakingRegistry × UInt64) :=
  match r.getStake staker validatorAddr with
  | some stake =>
    .ok (r.putStake staker validatorAddr stake.withdrawRewards.1, stake.withdrawRewards.2)
  | none => .error .stakeNotFound

/-! ## What is held -/

/-- A sum over all stakes. -/
def stakeTotal (f : Stake → Nat) (r : StakingRegistry) : Nat :=
  Column.total (Column.total f) r.stakes

/-- All that is staked. -/
def staked (r : StakingRegistry) : Nat := r.stakeTotal fun stake => stake.amount.toNat

/-- All rewards that wait to be withdrawn. -/
def held (r : StakingRegistry) : Nat :=
  Column.total (fun v => v.pendingRewards.toNat) r.validators
    + r.stakeTotal fun stake => stake.rewards.toNat

/-- What waits for a validator. -/
def pendingAt (r : StakingRegistry) (v : Address) : Nat :=
  Column.valueAt (fun v => v.pendingRewards.toNat) r.validators v

/-- What waits for a stake. -/
def rewardsAt (r : StakingRegistry) (staker v : Address) : Nat :=
  ((r.getStake staker v).map fun stake => stake.rewards.toNat).getD 0

/-- Nobody's rewards go down, and all together go up by no more than `n`; the stakes stay. -/
structure Adds (r r' : StakingRegistry) (n : Nat) : Prop where
  pending : ∀ v, r.pendingAt v ≤ r'.pendingAt v
  rewards : ∀ s v, r.rewardsAt s v ≤ r'.rewardsAt s v
  held : r'.held ≤ r.held + n
  staked : r'.staked = r.staked

variable {r r' r'' : StakingRegistry} {s v staker validatorAddr addr : Address} {n n' : Nat}
  {order : Column.KeyOrder Address (Column Address Stake)} {stake : Stake}

theorem Adds.refl (r : StakingRegistry) (n : Nat) : Adds r r n :=
  ⟨fun _ => Nat.le_refl _, fun _ _ => Nat.le_refl _, Nat.le_add_right _ _, rfl⟩

theorem Adds.trans (h : Adds r r' n) (h' : Adds r' r'' n') : Adds r r'' (n + n') where
  pending v := (h.pending v).trans (h'.pending v)
  rewards s v := (h.rewards s v).trans (h'.rewards s v)
  held := by
    have := h.held
    have := h'.held
    omega
  staked := h'.staked.trans h.staked

theorem Adds.mono (h : Adds r r' n) (hle : n ≤ n') : Adds r r' n' :=
  { h with held := h.held.trans (Nat.add_le_add_left hle _) }

/-! ## One record -/

/-- A record that is written over moves a sum by its own change. -/
theorem stakeTotal_putStake (f : Stake → Nat) (h : r.getStake staker validatorAddr = some stake)
    (stake' : Stake) :
    (r.putStake staker validatorAddr stake').stakeTotal f + f stake
      = r.stakeTotal f + f stake' := by
  obtain ⟨stakes, hstakes, hstake⟩ := Option.bind_eq_some_iff.mp h
  have hinner := Column.total_replace f hstake stake'
  have houter := Column.total_replace (Column.total f) hstakes (stakes.insert validatorAddr stake')
  show Column.total (Column.total f) (r.stakes.insert staker
    (((r.stakes.lookup staker).getD ∅).insert validatorAddr stake')) + _ = _
  rw [hstakes, Option.getD_some, stakeTotal]
  omega

theorem le_saturatingAdd (a b : UInt64) : a.toNat ≤ (saturatingAdd a b).toNat := by
  by_cases h : a.toNat + b.toNat < 2 ^ 64
  · rw [toNat_saturatingAdd_of_lt h]
    omega
  · rw [saturatingAdd, if_neg h]
    have := a.toNat_lt
    show a.toNat ≤ 2 ^ 64 - 1
    omega

theorem saturatingAdd_le (a b : UInt64) : (saturatingAdd a b).toNat ≤ a.toNat + b.toNat := by
  by_cases h : a.toNat + b.toNat < 2 ^ 64
  · rw [toNat_saturatingAdd_of_lt h]
  · rw [saturatingAdd, if_neg h]
    show 2 ^ 64 - 1 ≤ _
    omega

theorem adds_commission (r : StakingRegistry) (addr : Address) (commission : UInt64) :
    Adds r (r.addCommission addr commission) commission.toNat := by
  unfold addCommission
  split
  · next val hval =>
    have htotal := Column.total_replace (fun v => v.pendingRewards.toNat) hval
      (val.addRewards commission)
    have hle := saturatingAdd_le val.pendingRewards commission
    refine ⟨fun v => ?_, fun _ _ => Nat.le_refl _, ?_, rfl⟩
    · show Column.valueAt _ r.validators v ≤ Column.valueAt _ (r.validators.insert addr _) v
      by_cases hv : v = addr
      · rw [hv, Column.valueAt, Column.valueAt, hval, Finmap.lookup_insert]
        exact le_saturatingAdd _ _
      · rw [Column.valueAt_congr _ (Finmap.lookup_insert_of_ne _ hv)]
    · show Column.total _ (r.validators.insert addr _) + stakeTotal _ r
        ≤ Column.total _ r.validators + stakeTotal _ r + _
      simp only [Validator.addRewards] at htotal ⊢
      omega
  · exact Adds.refl _ _

theorem adds_share (r : StakingRegistry) (staker validatorAddr : Address) (share : UInt64) :
    Adds r (r.addShare staker validatorAddr share) share.toNat := by
  unfold addShare
  split
  · next stake hstake =>
    have hrewards := stakeTotal_putStake (fun stake => stake.rewards.toNat) hstake
      (stake.addRewards share)
    have hamounts := stakeTotal_putStake (fun stake => stake.amount.toNat) hstake
      (stake.addRewards share)
    have hle := saturatingAdd_le stake.rewards share
    refine ⟨fun _ => Nat.le_refl _, fun s v => ?_, ?_, Nat.add_right_cancel hamounts⟩
    · rw [rewardsAt, rewardsAt, getStake_putStake]
      split
      · next h =>
        rw [h.1, h.2, hstake]
        exact le_saturatingAdd _ _
      · exact Nat.le_refl _
    · show Column.total _ r.validators + stakeTotal _ _
        ≤ Column.total _ r.validators + stakeTotal _ r + _
      simp only [Stake.addRewards] at hrewards ⊢
      omega
  · exact Adds.refl _ _

/-! ## The stakes of one validator -/

theorem mulDiv_le (a b c : Nat) : (mulDiv a b c).toNat ≤ a * b / c :=
  (UInt64.toNat_ofNat' ..).trans_le (Nat.mod_le _ _)

/-- Bonded stakes with one validator are some of all stakes. -/
theorem sum_delegators_le (r : StakingRegistry)
    (order : Column.KeyOrder Address (Column Address Stake)) (validatorAddr : Address) :
    ((r.delegators order validatorAddr).map fun d => d.2.toNat).sum ≤ r.staked := by
  have hlist : ∀ entries : List (Address × Column Address Stake),
      ((entries.filterMap fun entry =>
        match entry.2.lookup validatorAddr with
        | some stake => if stake.status = .bonded then some (entry.1, stake.amount) else none
        | none => none).map fun d => d.2.toNat).sum
      ≤ (entries.map fun e => Column.total (fun stake => stake.amount.toNat) e.2).sum := by
    intro entries
    induction entries with
    | nil => exact Nat.le_refl _
    | cons entry entries ih =>
      rw [List.filterMap_cons, List.map_cons, List.sum_cons]
      split
      · omega
      · next d hd =>
        split at hd
        · next stake hstake =>
          split at hd
          · cases hd
            have hone := Column.le_total (fun stake => stake.amount.toNat) hstake
            rw [List.map_cons, List.sum_cons]
            exact Nat.add_le_add hone ih
          · cases hd
        · cases hd
  exact (hlist _).trans_eq (order.sum_entries _ _)

theorem toNat_totalDelegated (delegators : List (Address × UInt64))
    (h : (delegators.map fun d => d.2.toNat).sum < 2 ^ 64) :
    (totalDelegated delegators).toNat = (delegators.map fun d => d.2.toNat).sum := by
  have hfold : ∀ (ds : List (Address × UInt64)) (total : UInt64),
      total.toNat + (ds.map fun d => d.2.toNat).sum < 2 ^ 64 →
      (ds.foldl (fun total d => total + d.2) total).toNat
        = total.toNat + (ds.map fun d => d.2.toNat).sum := by
    intro ds
    induction ds with
    | nil => exact fun _ _ => rfl
    | cons d ds ih =>
      intro total hlt
      rw [List.map_cons, List.sum_cons] at hlt ⊢
      have hsum : (total + d.2).toNat = total.toNat + d.2.toNat := toNat_add_of_lt (by omega)
      rw [List.foldl_cons, ih (total + d.2) (by omega), hsum, Nat.add_assoc]
  have hall := hfold delegators 0 (by rwa [UInt64.toNat_zero, Nat.zero_add])
  rwa [UInt64.toNat_zero, Nat.zero_add] at hall

/-- Shares given out one after the other. -/
theorem adds_foldl_share (share : Address × UInt64 → UInt64) (validatorAddr : Address)
    (ds : List (Address × UInt64)) (r : StakingRegistry) :
    Adds r (ds.foldl (fun r d => r.addShare d.1 validatorAddr (share d)) r)
      (ds.map fun d => (share d).toNat).sum := by
  induction ds generalizing r with
  | nil => exact Adds.refl _ _
  | cons d ds ih =>
    rw [List.foldl_cons, List.map_cons, List.sum_cons]
    exact (adds_share r d.1 validatorAddr (share d)).trans (ih _)

/-- The stakes of a validator have no more between them than is given. -/
theorem adds_delegators (hstaked : r.staked < 2 ^ 64) (validatorAddr : Address)
    (amount : UInt64) :
    Adds r (distributeToDelegators order r validatorAddr amount) amount.toNat := by
  have hfits := (sum_delegators_le r order validatorAddr).trans_lt hstaked
  show Adds r (if totalDelegated (r.delegators order validatorAddr) = 0 then r else _) _
  split
  · exact Adds.refl _ _
  · refine (adds_foldl_share _ validatorAddr _ r).mono ?_
    have hshares : ((r.delegators order validatorAddr).map fun d => amount.toNat * d.2.toNat
        / (totalDelegated (r.delegators order validatorAddr)).toNat).sum ≤ amount.toNat :=
      sum_share_le (toNat_totalDelegated _ hfits).symm
    refine (List.sum_le_sum fun d _ => ?_).trans hshares
    exact mulDiv_le _ _ _

/-! ## The members of the set -/

/-- Each validator stands under its own address and keeps no more than all. -/
def Sound (r : StakingRegistry) : Prop :=
  ∀ k v, r.validators.lookup k = some v → v.address = k ∧ v.commissionBps.toNat ≤ 10000

/-- The members have between them what the set's total says, or the total is nought. -/
def Covers (set : ValidatorSet) : Prop :=
  set.totalVotingPower = 0 ∨
    (set.validators.map fun a => (set.getVotingPower a).toNat).sum = set.totalVotingPower.toNat

theorem adds_reward (hstaked : r.staked < 2 ^ 64) (entry : Address × UInt64 × UInt64) :
    Adds r (applyReward order r entry) (entry.2.1.toNat + entry.2.2.toNat) := by
  have hcommission := adds_commission r entry.1 entry.2.1
  exact hcommission.trans (adds_delegators (hcommission.staked.trans_lt hstaked) _ _)

theorem adds_foldl_reward (entries : List (Address × UInt64 × UInt64)) (r : StakingRegistry)
    (hstaked : r.staked < 2 ^ 64) :
    Adds r (entries.foldl (applyReward order) r)
      (entries.map fun e => e.2.1.toNat + e.2.2.toNat).sum := by
  induction entries generalizing r with
  | nil => exact Adds.refl _ _
  | cons entry entries ih =>
    have hone : Adds r (applyReward order r entry) (entry.2.1.toNat + entry.2.2.toNat) :=
      adds_reward hstaked entry
    rw [List.foldl_cons, List.map_cons, List.sum_cons]
    exact hone.trans (ih _ (hone.staked.trans_lt hstaked))

/-- A member's commission and the rest are its share. -/
theorem rewardEntry_le (hsound : r.Sound) {set : ValidatorSet} {totalRewards : UInt64}
    {entry : Address × UInt64 × UInt64} (h : r.rewardEntry set totalRewards addr = some entry) :
    entry.2.1.toNat + entry.2.2.toNat
      ≤ totalRewards.toNat * (set.getVotingPower addr).toNat / set.totalVotingPower.toNat := by
  obtain ⟨power, hpower, h⟩ := Option.bind_eq_some_iff.mp h
  obtain ⟨val, hval, h⟩ := Option.bind_eq_some_iff.mp h
  cases h
  have hshare := mulDiv_le totalRewards.toNat power.toNat set.totalVotingPower.toNat
  have hbps := (hsound addr val hval).2
  have hpowerAt : set.getVotingPower addr = power := by
    rw [ValidatorSet.getVotingPower, hpower]
    rfl
  rw [hpowerAt]
  generalize mulDiv totalRewards.toNat power.toNat set.totalVotingPower.toNat = share at hshare ⊢
  have hcommission := mulDiv_le share.toNat val.commissionBps.toNat 10000
  -- of ten thousand parts no more than all
  have hpart : share.toNat * val.commissionBps.toNat / 10000 ≤ share.toNat := by
    refine Nat.div_le_of_le_mul ?_
    rw [Nat.mul_comm 10000]
    exact Nat.mul_le_mul_left _ hbps
  show (mulDiv share.toNat val.commissionBps.toNat 10000).toNat
    + (saturatingSub share (mulDiv share.toNat val.commissionBps.toNat 10000)).toNat ≤ _
  rw [toNat_saturatingSub]
  omega

theorem sum_rewardEntry_le (hsound : r.Sound) (set : ValidatorSet) (totalRewards : UInt64)
    (members : List Address) :
    ((members.filterMap (r.rewardEntry set totalRewards)).map
      fun e => e.2.1.toNat + e.2.2.toNat).sum
      ≤ (members.map fun a => totalRewards.toNat * (set.getVotingPower a).toNat
          / set.totalVotingPower.toNat).sum := by
  induction members with
  | nil => exact Nat.le_refl _
  | cons addr members ih =>
    rw [List.filterMap_cons, List.map_cons, List.sum_cons]
    split
    · exact ih.trans (Nat.le_add_left _ _)
    · next entry hentry =>
      rw [List.map_cons, List.sum_cons]
      exact Nat.add_le_add (rewardEntry_le hsound hentry) ih

/-- A pot is given out once at most. -/
theorem adds_distribute (hsound : r.Sound) {set : ValidatorSet} (hcovers : Covers set)
    (hstaked : r.staked < 2 ^ 64) (totalRewards : UInt64) :
    Adds r (r.distributeRewards set order totalRewards) totalRewards.toNat := by
  unfold distributeRewards
  split
  · exact Adds.refl _ _
  · next hpos =>
    have hwhole := hcovers.resolve_left hpos
    have hshares : (set.validators.map fun a => totalRewards.toNat
        * (set.getVotingPower a).toNat / set.totalVotingPower.toNat).sum ≤ totalRewards.toNat :=
      sum_share_le hwhole
    exact (adds_foldl_reward _ r hstaked).mono
      ((sum_rewardEntry_le hsound set totalRewards _).trans hshares)

/-- Only the records of validators are looked at. -/
theorem Sound.congr (h : r.Sound) (hvals : r'.validators = r.validators) : r'.Sound := by
  intro k val hval
  rw [hvals] at hval
  exact h k val hval

theorem Sound.insert (h : r.Sound) {val : Validator}
    (hvals : r'.validators = r.validators.insert addr val)
    (hval : val.address = addr ∧ val.commissionBps.toNat ≤ 10000) : r'.Sound := by
  intro k val' hlookup
  rw [hvals] at hlookup
  by_cases hk : k = addr
  · rw [hk, Finmap.lookup_insert] at hlookup
    cases hlookup
    exact hk ▸ hval
  · rw [Finmap.lookup_insert_of_ne _ hk] at hlookup
    exact h k val' hlookup

/-- A record that is written over by one with the same address and commission. -/
theorem Sound.replace (h : r.Sound) {val val' : Validator}
    (hlookup : r.validators.lookup addr = some val)
    (hvals : r'.validators = r.validators.insert addr val') (haddress : val'.address = val.address)
    (hcommission : val'.commissionBps = val.commissionBps) : r'.Sound := by
  refine h.insert hvals ?_
  rw [haddress, hcommission]
  exact h addr val hlookup

theorem Sound.completeEntries {now : UInt64} (entries : List (Address × Address))
    (acc : StakingRegistry × List (Address × Address × UInt64)) (h : acc.1.Sound) :
    (entries.foldl (completeEntry now) acc).1.Sound :=
  completeEntries_related (R := fun r r' => r.Sound → r'.Sound) (fun _ h => h)
    (fun _ _ _ h h' hsound => h' (h hsound))
    (fun _ _ _ _ _ hok h => h.congr (complete_moves hok).2.1) entries acc h

theorem Sound.addCommission (h : r.Sound) (addr : Address) (commission : UInt64) :
    (r.addCommission addr commission).Sound := by
  unfold StakingRegistry.addCommission
  split
  · next val hval => exact h.replace hval rfl rfl rfl
  · exact h

theorem validators_addShare (r : StakingRegistry) (staker validatorAddr : Address)
    (share : UInt64) : (r.addShare staker validatorAddr share).validators = r.validators := by
  unfold addShare
  split
  · rfl
  · rfl

theorem validators_distributeToDelegators (r : StakingRegistry) (validatorAddr : Address)
    (amount : UInt64) :
    (distributeToDelegators order r validatorAddr amount).validators = r.validators := by
  have hfold : ∀ (share : Address × UInt64 → UInt64) (ds : List (Address × UInt64))
      (r : StakingRegistry),
      (ds.foldl (fun r d => r.addShare d.1 validatorAddr (share d)) r).validators
        = r.validators := by
    intro share ds
    induction ds with
    | nil => exact fun _ => rfl
    | cons d ds ih =>
      intro r
      rw [List.foldl_cons, ih, validators_addShare]
  show (if totalDelegated (r.delegators order validatorAddr) = 0 then r else _).validators = _
  split
  · rfl
  · exact hfold _ _ r

theorem Sound.distribute (h : r.Sound) (set : ValidatorSet) (totalRewards : UInt64) :
    (r.distributeRewards set order totalRewards).Sound := by
  have hfold : ∀ (entries : List (Address × UInt64 × UInt64)) (r : StakingRegistry), r.Sound →
      (entries.foldl (applyReward order) r).Sound := by
    intro entries
    induction entries with
    | nil => exact fun _ h => h
    | cons entry entries ih =>
      intro r h
      exact ih _ ((h.addCommission entry.1 entry.2.1).congr
        (validators_distributeToDelegators _ _ _))
  unfold distributeRewards
  split
  · exact h
  · exact hfold _ r h

/-- An unstake with somebody who is no validator. -/
theorem begin_validators_none {now amount completion : UInt64}
    (h : r.beginUnstake now staker validatorAddr amount = .ok (r', completion))
    (hnone : r.validators.lookup validatorAddr = none) : r'.validators = r.validators := by
  unfold beginUnstake at h
  split at h
  · cases h
  split at h
  · cases h
  split at h
  · cases h
  split at h
  · cases h
  cases h
  show (match r.validators.lookup validatorAddr with | some v => _ | none => _) = _
  rw [hnone]

theorem validatorUnstaked_address (config : StakingConfig) (own : Bool) (val : Validator)
    (amount : UInt64) : (validatorUnstaked config own val amount).address = val.address := by
  unfold validatorUnstaked
  split
  · dsimp only
    split <;> rfl
  · rfl

theorem validatorUnstaked_commissionBps (config : StakingConfig) (own : Bool) (val : Validator)
    (amount : UInt64) :
    (validatorUnstaked config own val amount).commissionBps = val.commissionBps := by
  unfold validatorUnstaked
  split
  · dsimp only
    split <;> rfl
  · rfl

theorem Sound.apply (h : r.Sound) (op : RegistryOp) : (op.apply r).Sound := by
  cases op with
  | register now address operator pubkey initialStake commissionBps description =>
    rw [RegistryOp.apply]
    split
    · next r' hok =>
      refine h.insert (register_ok hok).2.2.2.1 ⟨rfl, ?_⟩
      show (if commissionBps ≤ 10000 then commissionBps else 10000).toNat ≤ _
      split
      · next hle => exact UInt16.le_iff_toNat_le.mp hle
      · exact Nat.le_refl _
    · exact h
  | activate address =>
    rw [RegistryOp.apply]
    split
    · next r' hok =>
      obtain ⟨val, hval, rfl⟩ := activate_ok hok
      exact h.replace hval rfl rfl rfl
    · exact h
  | delegate now delegator validatorAddr amount =>
    rw [RegistryOp.apply]
    split
    · next r' hok =>
      obtain ⟨_, _, _, ⟨val, hval, hvals⟩, _⟩ := delegate_ok hok
      exact h.replace hval hvals rfl rfl
    · exact h
  | beginUnstake now staker validatorAddr amount =>
    rw [RegistryOp.apply]
    split
    · next r' completion hok =>
      cases hlookup : r.validators.lookup validatorAddr with
      | none => exact h.congr (begin_validators_none hok hlookup)
      | some val =>
        obtain ⟨_, _, _, _, _, _, hvals, _, _⟩ := begin_ok hok
        exact h.replace hlookup (hvals val hlookup) (validatorUnstaked_address ..)
          (validatorUnstaked_commissionBps ..)
    · exact h
  | completeUnbonding now staker validatorAddr =>
    rw [RegistryOp.apply]
    split
    · next r' amount hok => exact h.congr (complete_moves hok).2.1
    · exact h
  | processQueue now order => exact Sound.completeEntries _ (r, []) h

/-! ## The set of an epoch -/

theorem activeValidators_nodup (h : r.Sound) (order : Column.KeyOrder Address Validator) :
    ((r.getActiveValidators order).map Validator.address).Nodup := by
  have haddress : (order.entries r.validators).map (fun e => e.2.address)
      = order.keys r.validators := by
    rw [← order.map_fst_entries]
    exact List.map_congr_left fun e he => (h e.1 e.2 (order.mem_entries.mp he)).1
  refine (List.filter_sublist.map _).nodup ?_
  rw [List.map_map]
  show ((order.entries r.validators).map fun e => e.2.address).Nodup
  rw [haddress]
  exact order.nodup _

/-- A set covers its members when its total has not wrapped to something else. -/
theorem covers_fromValidators {now epoch : UInt64} {validators : List Validator}
    {selection : ValidatorSelection} (hnodup : (validators.map Validator.address).Nodup)
    (hfits : ValidatorSet.powers (ValidatorSet.chosen validators) < 2 ^ 64 ∨
      2 ^ 64 ∣ ValidatorSet.powers (ValidatorSet.chosen validators)) :
    Covers (ValidatorSet.fromValidators now epoch validators selection) := by
  rcases hfits with hlt | hdvd
  · right
    rw [ValidatorSet.total_fromValidators, Nat.mod_eq_of_lt hlt,
      ValidatorSet.validators_fromValidators, List.map_map]
    refine congrArg List.sum (List.map_congr_left fun v hv => ?_)
    show UInt64.toNat (ValidatorSet.getVotingPower _ v.address) = _
    rw [ValidatorSet.getVotingPower, ValidatorSet.fromValidators_eq,
      ValidatorSet.getVotingPower_foldl _ _ (ValidatorSet.chosen_nodup hnodup) hv]
    rfl
  · left
    refine UInt64.toNat_inj.mp ?_
    rw [ValidatorSet.total_fromValidators, Nat.mod_eq_zero_of_dvd hdvd]
    rfl

end StakingRegistry

/-! ## Runs -/

/-- The registry with the epoch it keeps. -/
structure StakingEpochs where
  registry : StakingRegistry
  currentEpoch : UInt64
  validatorSet : ValidatorSet

namespace StakingEpochs

open StakingRegistry ValidatorSet

def new (now : UInt64) (config : StakingConfig) : StakingEpochs :=
  ⟨.new config, 0, .new now 0 .weightedRandom⟩

def advanceEpoch (s : StakingEpochs) (now : UInt64)
    (order : Column.KeyOrder Address Validator) : StakingEpochs :=
  { s with
    currentEpoch := s.currentEpoch + 1
    validatorSet := .fromValidators now (s.currentEpoch + 1)
      (s.registry.getActiveValidators order) .weightedRandom }

def distributeRewards (s : StakingEpochs)
    (order : Column.KeyOrder Address (Column Address Stake)) (totalRewards : UInt64) :
    StakingEpochs :=
  { s with registry := s.registry.distributeRewards s.validatorSet order totalRewards }

end StakingEpochs

/-- A call, with the order in which it finds a hash map. -/
inductive EpochOp where
  | call (op : RegistryOp)
  | advanceEpoch (now : UInt64) (order : Column.KeyOrder Address Validator)
  | distributeRewards (order : Column.KeyOrder Address (Column Address Stake))
      (totalRewards : UInt64)
  | claimRewards (staker validatorAddr : Address)

namespace EpochOp

open StakingRegistry ValidatorSet

def apply (s : StakingEpochs) : EpochOp → StakingEpochs
  | call op => { s with registry := op.apply s.registry }
  | advanceEpoch now order => s.advanceEpoch now order
  | distributeRewards order totalRewards => s.distributeRewards order totalRewards
  | claimRewards staker validatorAddr =>
    match s.registry.claimRewards staker validatorAddr with
    | .ok (r, _) => { s with registry := r }
    | .error _ => s

def run (s : StakingEpochs) (ops : List EpochOp) : StakingEpochs := ops.foldl apply s

/-- The powers an epoch starts with do not wrap the total to something that is not nought. -/
def Fits (s : StakingEpochs) : EpochOp → Prop
  | advanceEpoch _ order =>
    powers (chosen (s.registry.getActiveValidators order)) < 2 ^ 64 ∨
      2 ^ 64 ∣ powers (chosen (s.registry.getActiveValidators order))
  | call _ | distributeRewards .. | claimRewards .. => True

/-- Every call of a run fits. -/
def RunFits (s : StakingEpochs) : List EpochOp → Prop
  | [] => True
  | op :: ops => op.Fits s ∧ RunFits (op.apply s) ops

variable {s : StakingEpochs} {op : EpochOp} {ops : List EpochOp}

/-- What a call keeps. -/
theorem sound_apply (hsound : s.registry.Sound) (hcovers : Covers s.validatorSet)
    (hfits : op.Fits s) : (op.apply s).registry.Sound ∧ Covers (op.apply s).validatorSet := by
  cases op with
  | call op => exact ⟨hsound.apply op, hcovers⟩
  | advanceEpoch now order =>
    exact ⟨hsound, covers_fromValidators (activeValidators_nodup hsound order) hfits⟩
  | distributeRewards order totalRewards => exact ⟨hsound.distribute _ _, hcovers⟩
  | claimRewards staker validatorAddr =>
    rw [apply]
    split
    · next r _ hok =>
      unfold StakingRegistry.claimRewards at hok
      split at hok
      · cases hok
        exact ⟨hsound.congr rfl, hcovers⟩
      · cases hok
    · exact ⟨hsound, hcovers⟩

theorem sound_run (hsound : s.registry.Sound) (hcovers : Covers s.validatorSet)
    (hfits : RunFits s ops) : (run s ops).registry.Sound ∧ Covers (run s ops).validatorSet := by
  induction ops generalizing s with
  | nil => exact ⟨hsound, hcovers⟩
  | cons op ops ih =>
    obtain ⟨hsound, hcovers⟩ := sound_apply hsound hcovers hfits.1
    exact ih hsound hcovers hfits.2

/-- **No over-issue.** In every state a run reaches whose epochs' powers fit, with stakes
below `2 ^ 64`, a distribution adds no more than its pot. -/
theorem distribution_adds (now : UInt64) (config : StakingConfig) (ops : List EpochOp)
    (hfits : RunFits (.new now config) ops)
    (hstaked : (run (.new now config) ops).registry.staked < 2 ^ 64)
    (order : Column.KeyOrder Address (Column Address Stake)) (totalRewards : UInt64) :
    Adds (run (.new now config) ops).registry
      ((run (.new now config) ops).distributeRewards order totalRewards).registry
      totalRewards.toNat := by
  have hnew : (StakingEpochs.new now config).registry.Sound := fun k val h => nomatch h
  obtain ⟨hsound, hcovers⟩ := sound_run hnew (.inl rfl) hfits
  exact adds_distribute hsound hcovers hstaked totalRewards

/-! ## An epoch that pays and one that overpays -/

/-- Both of two validators, the first one first. -/
noncomputable def firstFirst {V : Type} : Column.KeyOrder Address V :=
  .ofList [testAddress 1, testAddress 2]

/-- Two registered and activated validators. -/
def registerTwo (stake₁ stake₂ : UInt64) : List EpochOp :=
  [.call (.register 0 (testAddress 1) (testAddress 1) (Vector.replicate 32 0) stake₁ 500 ""),
    .call (.register 0 (testAddress 2) (testAddress 2) (Vector.replicate 32 0) stake₂ 500 ""),
    .call (.activate (testAddress 1)), .call (.activate (testAddress 2))]

/-- An epoch of two, of whom one has gone when the rewards come. -/
noncomputable def leftEpoch : List EpochOp :=
  registerTwo MIN_VALIDATOR_STAKE MIN_VALIDATOR_STAKE ++
    [.advanceEpoch 10 firstFirst,
      .call (.beginUnstake 20 (testAddress 1) (testAddress 1) MIN_VALIDATOR_STAKE)]

theorem distribution_adds_left :
    let s := run (.new 0 .default) leftEpoch
    Adds s.registry (s.distributeRewards firstFirst CHECKPOINT_BASE_REWARD).registry
      CHECKPOINT_BASE_REWARD.toNat := by
  have hpowers : powers (getActiveValidators
      (run (.new 0 .default) (registerTwo MIN_VALIDATOR_STAKE MIN_VALIDATOR_STAKE)).registry
        firstFirst) < 2 ^ 64 := by
    decide +kernel
  have hstaked : (run (.new 0 .default) leftEpoch).registry.staked < 2 ^ 64 := by decide +kernel
  exact distribution_adds 0 .default leftEpoch
    ⟨trivial, trivial, trivial, trivial, .inl ((powers_chosen_le _).trans_lt hpowers), trivial,
      trivial⟩ hstaked firstFirst CHECKPOINT_BASE_REWARD

/-- The powers of an epoch add up to `2 ^ 64 + 3`. -/
noncomputable def wrappedEpoch : List EpochOp :=
  registerTwo 0x8000000000000003 0x8000000000000000 ++
    [.advanceEpoch 10 firstFirst,
      .call (.beginUnstake 20 (testAddress 1) (testAddress 1) 0x4000000000000000)]

/-- Of a pot of three each of two validators has `2 ^ 63` and more. -/
theorem wrapped_epoch_overpays :
    let s := run (.new 0 .default) wrappedEpoch
    s.registry.staked < 2 ^ 64 ∧
      ¬ Adds s.registry (s.distributeRewards firstFirst 3).registry 3 := by
  have hactive : getActiveValidators
      (run (.new 0 .default) (registerTwo 0x8000000000000003 0x8000000000000000)).registry
        firstFirst
      = [activeValidator 1 0x8000000000000003, activeValidator 2 0x8000000000000000] := by
    decide +kernel
  have hset : (run (.new 0 .default) wrappedEpoch).validatorSet
      = [activeValidator 1 0x8000000000000003, activeValidator 2 0x8000000000000000].foldl push
        (.new 10 1 .weightedRandom) := by
    show fromValidators 10 1 (getActiveValidators (run (.new 0 .default)
      (registerTwo 0x8000000000000003 0x8000000000000000)).registry firstFirst) _ = _
    rw [hactive, fromValidators_eq, chosen_of_sorted (by decide) (by decide) (by decide)]
  refine ⟨by decide +kernel, fun h => absurd h.held ?_⟩
  rw [StakingEpochs.distributeRewards, hset]
  decide +kernel

end EpochOp

end Pyrax.Staking
