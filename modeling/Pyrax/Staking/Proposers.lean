import Pyrax.Base.Tickets
import Pyrax.Staking.Intersection

/-!
# Who proposes

`select_proposer` of `staking/validator.rs` names the proposer of a block by the set's way of
selection: in turns, the first of the set, or by `weighted_select`, which scans the members
and adds their powers up until the sum is above the block's number modulo the total.

A set built from validators with distinct addresses whose powers do not wrap is `Proportional`
(`proportional`): the scan always stops at somebody, among the residues each member has as
many as its power, and where selection is weighted each proposes as often in as many blocks
in a row. The other two ways are not proportional and are not meant to be.
-/

namespace Pyrax.Staking

open Base Tickets

namespace ValidatorSet

/-- The loop of `weighted_select`: `cumulative` is added to with `+=`. -/
def scan (set : ValidatorSet) (target : UInt64) : UInt64 → List Address → Option Address
  | _, [] => none
  | cumulative, addr :: rest =>
    match set.votingPower.lookup addr with
    | some power =>
      if target < cumulative + power then some addr
      else scan set target (cumulative + power) rest
    | none => scan set target cumulative rest

def weightedSelect (set : ValidatorSet) (seed : UInt64) : Option Address :=
  if set.totalVotingPower = 0 then none
  else
    match set.scan (seed % set.totalVotingPower) 0 set.validators with
    | some addr => some addr
    | none => set.validators.head?

def selectProposer (set : ValidatorSet) (blockNumber : UInt64) : Option Address :=
  if set.validators = [] then none
  else
    match set.selection with
    | .roundRobin => set.validators[blockNumber.toNat % set.validators.length]?
    | .weightedRandom => set.weightedSelect blockNumber
    | .highestStake => set.validators.head?

/-- Selection by power: the scan does not run to its end, each member has as many targets as
its power, and by weighted selection it proposes that many of any `total` blocks in a row. -/
structure Proportional (set : ValidatorSet) : Prop where
  found : ∀ seed : UInt64,
    set.scan (seed % set.totalVotingPower) 0 set.validators ≠ none
  targets : ∀ a ∈ set.validators,
    set.totalVotingPower.toNat.count (fun t => set.weightedSelect (.ofNat t) = some a)
      = (set.getVotingPower a).toNat
  blocks : set.selection = .weightedRandom → ∀ first : Nat,
    first + set.totalVotingPower.toNat ≤ 2 ^ 64 → ∀ a ∈ set.validators,
      ((Finset.Ico first (first + set.totalVotingPower.toNat)).filter fun block =>
        set.selectProposer (.ofNat block) = some a).card = (set.getVotingPower a).toNat

/-! ## The scan draws tickets -/

/-- The members as owners of as many tickets as they have power. -/
def tickets (vs : List Validator) : List (Address × Nat) :=
  vs.map fun v => (v.address, v.votingPower.toNat)

variable {set : ValidatorSet} {vs : List Validator} {a : Address}

theorem owners_tickets (vs : List Validator) :
    (tickets vs).map Prod.fst = vs.map Validator.address := by
  rw [tickets, List.map_map]
  rfl

theorem weight_tickets (vs : List Validator) : weight (tickets vs) = powers vs := by
  rw [weight, tickets, List.map_map]
  rfl

/-- The invariant is that the sum so far is no more than the target. -/
theorem scan_eq_draw (vs : List Validator) (target cumulative : UInt64)
    (htable : ∀ v ∈ vs, set.votingPower.lookup v.address = some v.votingPower)
    (hle : cumulative.toNat ≤ target.toNat) (hfits : cumulative.toNat + powers vs < 2 ^ 64) :
    set.scan target cumulative (vs.map Validator.address)
      = draw (tickets vs) (target.toNat - cumulative.toNat) := by
  induction vs generalizing cumulative with
  | nil => rfl
  | cons v vs ih =>
    have hpowers : powers (v :: vs) = v.votingPower.toNat + powers vs := rfl
    have hsum : (cumulative + v.votingPower).toNat
        = cumulative.toNat + v.votingPower.toNat := by
      rw [UInt64.toNat_add, Nat.mod_eq_of_lt (by omega)]
    have htickets : tickets (v :: vs) = (v.address, v.votingPower.toNat) :: tickets vs := rfl
    rw [List.map_cons, scan, htable v (List.mem_cons_self ..), htickets, draw]
    simp only [UInt64.lt_iff_toNat_lt, hsum]
    split
    · rw [if_pos (by omega)]
    · rw [if_neg (by omega), ih (cumulative + v.votingPower)
        (fun v' hv' => htable v' (List.mem_cons_of_mem _ hv')) (by omega) (by omega), hsum,
        Nat.sub_sub]

section From

variable {now epoch : UInt64} {validators : List Validator} {selection : ValidatorSelection}

theorem scan_fromValidators (hnodup : ((chosen validators).map Validator.address).Nodup)
    (hfits : powers (chosen validators) < 2 ^ 64) (target : UInt64) :
    (fromValidators now epoch validators selection).scan target 0
        (fromValidators now epoch validators selection).validators
      = draw (tickets (chosen validators)) target.toNat := by
  rw [validators_fromValidators]
  refine scan_eq_draw _ target 0 (fun v hv => ?_) (Nat.zero_le _) ?_
  · rw [fromValidators_eq]
    exact getVotingPower_foldl _ _ hnodup hv
  · exact (Nat.zero_add _).symm ▸ hfits

theorem weightedSelect_fromValidators
    (hnodup : ((chosen validators).map Validator.address).Nodup)
    (hpos : 0 < powers (chosen validators)) (hfits : powers (chosen validators) < 2 ^ 64)
    (seed : UInt64) :
    (fromValidators now epoch validators selection).weightedSelect seed
      = draw (tickets (chosen validators)) (seed.toNat % powers (chosen validators)) := by
  have htotal : (fromValidators now epoch validators selection).totalVotingPower.toNat
      = powers (chosen validators) := by
    rw [total_fromValidators, Nat.mod_eq_of_lt hfits]
  have hne : (fromValidators now epoch validators selection).totalVotingPower ≠ 0 := by
    intro h
    rw [h, UInt64.toNat_zero] at htotal
    omega
  have hdrawn : draw (tickets (chosen validators)) (seed.toNat % powers (chosen validators))
      ≠ none := by
    rw [Ne, draw_eq_none_iff, weight_tickets, Nat.not_le]
    exact Nat.mod_lt _ hpos
  rw [weightedSelect, if_neg hne, scan_fromValidators hnodup hfits, UInt64.toNat_mod, htotal]
  split
  · next h => exact h.symm
  · next h => exact absurd h hdrawn

/-- A member's tickets. -/
theorem mem_tickets (hnodup : ((chosen validators).map Validator.address).Nodup)
    (ha : a ∈ (fromValidators now epoch validators selection).validators) :
    (a, ((fromValidators now epoch validators selection).getVotingPower a).toNat)
      ∈ tickets (chosen validators) := by
  rw [validators_fromValidators] at ha
  obtain ⟨v, hv, rfl⟩ := List.mem_map.mp ha
  have hpower : (fromValidators now epoch validators selection).getVotingPower v.address
      = v.votingPower := by
    rw [getVotingPower, fromValidators_eq, getVotingPower_foldl _ _ hnodup hv]
    rfl
  rw [hpower]
  exact List.mem_map_of_mem hv

end From

/-- **Proportional selection.** The members of a set built from validators with distinct
addresses, whose powers do not add up past `2 ^ 64`, are selected by their powers. -/
theorem proportional (now epoch : UInt64) (validators : List Validator)
    (selection : ValidatorSelection) (hdistinct : (validators.map Validator.address).Nodup)
    (hpos : 0 < powers (chosen validators)) (hfits : powers (chosen validators) < 2 ^ 64) :
    (fromValidators now epoch validators selection).totalVotingPower.toNat
        = powers (chosen validators) ∧
      (fromValidators now epoch validators selection).Proportional := by
  have hnodup := chosen_nodup hdistinct
  have htotal : (fromValidators now epoch validators selection).totalVotingPower.toNat
      = powers (chosen validators) := by
    rw [total_fromValidators, Nat.mod_eq_of_lt hfits]
  have howners : ((tickets (chosen validators)).map Prod.fst).Nodup := by
    rwa [owners_tickets]
  have hselect : ∀ seed, (fromValidators now epoch validators selection).weightedSelect seed
      = draw (tickets (chosen validators)) (seed.toNat % powers (chosen validators)) :=
    weightedSelect_fromValidators hnodup hpos hfits
  have hnumber : ∀ n < 2 ^ 64, (UInt64.ofNat n).toNat = n := fun n hn =>
    UInt64.toNat_ofNat_of_lt hn
  refine ⟨htotal, ?_, ?_, ?_⟩
  · intro seed
    rw [scan_fromValidators hnodup hfits, Ne, draw_eq_none_iff, weight_tickets, Nat.not_le,
      UInt64.toNat_mod, htotal]
    exact Nat.mod_lt _ hpos
  · intro a ha
    rw [htotal, ← weight_tickets, ← count_draw howners (mem_tickets hnodup ha),
      Nat.count_eq_card_filter_range, Nat.count_eq_card_filter_range, weight_tickets]
    congr 1
    refine Finset.filter_congr fun t ht => ?_
    have hlt := Finset.mem_range.mp ht
    rw [hselect, hnumber t (by omega), Nat.mod_eq_of_lt hlt]
  · intro hweighted first hlast a ha
    have hmembers : (fromValidators now epoch validators selection).validators ≠ [] :=
      List.ne_nil_of_mem ha
    have hwindow := card_window howners (mem_tickets hnodup ha) first
    rw [weight_tickets] at hwindow
    rw [htotal] at hlast
    rw [htotal, ← hwindow]
    congr 1
    refine Finset.filter_congr fun block hblock => ?_
    have hlt := (Finset.mem_Ico.mp hblock).2
    rw [selectProposer, if_neg hmembers, hweighted]
    show weightedSelect _ _ = _ ↔ _
    rw [hselect, hnumber block (by omega)]

/-! ## By weight and in turns -/

/-- Two validators of whom one has staked three times as much. -/
def threeToOne : List Validator := [activeValidator 1 3, activeValidator 2 1]

theorem chosen_threeToOne : chosen threeToOne = threeToOne :=
  chosen_of_sorted (by decide) (by decide) (by decide)

theorem proportional_three_to_one :
    (fromValidators 0 1 threeToOne .weightedRandom).totalVotingPower.toNat
        = powers (chosen threeToOne) ∧
      (fromValidators 0 1 threeToOne .weightedRandom).Proportional :=
  proportional 0 1 threeToOne .weightedRandom (by decide) (by rw [chosen_threeToOne]; decide)
    (by rw [chosen_threeToOne]; decide)

/-- In turns the one with three quarters of the power proposes two of four blocks. -/
theorem turns_are_equal :
    (fromValidators 0 1 threeToOne .roundRobin).totalVotingPower.toNat = 4 ∧
      (fromValidators 0 1 threeToOne .roundRobin).getVotingPower (testAddress 1) = 3 ∧
      ((Finset.Ico 0 4).filter fun block =>
        (fromValidators 0 1 threeToOne .roundRobin).selectProposer (.ofNat block)
          = some (testAddress 1)).card = 2 := by
  have hset : fromValidators 0 1 threeToOne .roundRobin
      = threeToOne.foldl push (new 0 1 .roundRobin) := by
    rw [fromValidators_eq, chosen_threeToOne]
  rw [hset]
  decide

end ValidatorSet

end Pyrax.Staking
