import Mathlib.Algebra.BigOperators.Group.Finset.Basic
import Mathlib.Algebra.Order.BigOperators.Group.List
import Pyrax.Staking.Validator

/-!
# What the set of an epoch is

`ValidatorSet::from_validators` of `staking/validator.rs` puts the active validators with
the highest powers into a set one by one (`chosen`): the list of addresses, the table of
powers and the total. The list names whom was chosen, in order; the total is added with
`+=` and is the sum of the powers modulo `2 ^ 64`. An address that was chosen twice has the
power it was given last, so the table holds at most the sum (`tablePower_le`), and all of it
when the addresses differ (`tablePower_eq`).
-/

namespace Pyrax.Staking

open Base Word

namespace ValidatorSet

/-- Whom the set is made of, in order. -/
def chosen (validators : List Validator) : List Validator :=
  ((validators.filter fun v => v.status = .active).mergeSort
    fun a b => b.votingPower ≤ a.votingPower).take MAX_ACTIVE_VALIDATORS

/-- The powers of validators, added up without a bound. -/
def powers (vs : List Validator) : Nat := (vs.map fun v => v.votingPower.toNat).sum

/-- What some addresses have by the table. -/
def tablePower (set : ValidatorSet) (addresses : Finset Address) : Nat :=
  ∑ a ∈ addresses, (set.getVotingPower a).toNat

/-- The members, each once. -/
def members (set : ValidatorSet) : Finset Address := set.validators.toFinset

variable {set : ValidatorSet} {v : Validator} {vs : List Validator} {a : Address}

theorem fromValidators_eq (now epoch : UInt64) (validators : List Validator)
    (selection : ValidatorSelection) :
    fromValidators now epoch validators selection
      = (chosen validators).foldl push (new now epoch selection) := rfl

/-- The chosen are some of the validators. -/
theorem powers_chosen_le (validators : List Validator) :
    powers (chosen validators) ≤ powers validators := by
  have hsorted : powers ((validators.filter fun v => v.status = .active).mergeSort
      fun a b => b.votingPower ≤ a.votingPower)
      = powers (validators.filter fun v => v.status = .active) :=
    ((List.mergeSort_perm _ _).map _).sum_eq
  have hchosen : powers (chosen validators)
      ≤ powers ((validators.filter fun v => v.status = .active).mergeSort
        fun a b => b.votingPower ≤ a.votingPower) :=
    ((List.take_sublist _ _).map _).sum_le_sum fun _ _ => Nat.zero_le _
  rw [hsorted] at hchosen
  exact hchosen.trans ((List.filter_sublist.map _).sum_le_sum fun _ _ => Nat.zero_le _)

theorem getVotingPower_push (set : ValidatorSet) (v : Validator) (a : Address) :
    (set.push v).getVotingPower a
      = if a = v.address then v.votingPower else set.getVotingPower a := by
  rw [getVotingPower, getVotingPower]
  show ((set.votingPower.insert v.address v.votingPower).lookup a).getD 0 = _
  split
  · next h =>
    rw [h, Finmap.lookup_insert]
    rfl
  · next h => rw [Finmap.lookup_insert_of_ne _ h]

theorem validators_foldl_push (vs : List Validator) (set : ValidatorSet) :
    (vs.foldl push set).validators = set.validators ++ vs.map Validator.address := by
  induction vs generalizing set with
  | nil => exact (List.append_nil _).symm
  | cons v vs ih =>
    rw [List.foldl_cons, ih]
    show (set.validators ++ [v.address]) ++ _ = _
    rw [List.append_assoc]
    rfl

/-- The total wraps. -/
theorem total_foldl_push (vs : List Validator) (set : ValidatorSet) :
    (vs.foldl push set).totalVotingPower.toNat
      = (set.totalVotingPower.toNat + powers vs) % 2 ^ 64 := by
  induction vs generalizing set with
  | nil => exact (Nat.mod_eq_of_lt set.totalVotingPower.toNat_lt).symm
  | cons v vs ih =>
    have hpush : (set.push v).totalVotingPower.toNat
        = (set.totalVotingPower.toNat + v.votingPower.toNat) % 2 ^ 64 := UInt64.toNat_add ..
    have hpowers : powers (v :: vs) = v.votingPower.toNat + powers vs := rfl
    rw [List.foldl_cons, ih, hpush, hpowers]
    omega

section From

variable {now epoch : UInt64} {validators : List Validator} {selection : ValidatorSelection}

theorem validators_fromValidators :
    (fromValidators now epoch validators selection).validators
      = (chosen validators).map Validator.address := by
  rw [fromValidators_eq, validators_foldl_push]
  rfl

theorem total_fromValidators :
    (fromValidators now epoch validators selection).totalVotingPower.toNat
      = powers (chosen validators) % 2 ^ 64 := by
  rw [fromValidators_eq, total_foldl_push]
  show (0 + _) % 2 ^ 64 = _
  rw [Nat.zero_add]

end From

/-! ## The table -/

/-- What one more member does to the table: its power is new, or it replaces another. -/
theorem tablePower_push (set : ValidatorSet) (v : Validator) :
    (set.push v).tablePower (set.push v).members
      + (if v.address ∈ set.members then (set.getVotingPower v.address).toNat else 0)
      = set.tablePower set.members + v.votingPower.toNat := by
  have hmembers : (set.push v).members = insert v.address set.members := by
    ext a
    simp [members, push]
  have hrest : ∀ s : Finset Address, v.address ∉ s →
      (set.push v).tablePower s = set.tablePower s := by
    intro s hs
    refine Finset.sum_congr rfl fun a ha => ?_
    have hne : a ≠ v.address := by
      rintro rfl
      exact hs ha
    rw [getVotingPower_push, if_neg hne]
  have hself : (set.push v).getVotingPower v.address = v.votingPower := by
    rw [getVotingPower_push, if_pos rfl]
  rw [hmembers]
  split
  · next hmem =>
    -- take the member out of both sums
    have hnew := Finset.add_sum_erase set.members
      (fun a => ((set.push v).getVotingPower a).toNat) hmem
    have hold := Finset.add_sum_erase set.members (fun a => (set.getVotingPower a).toNat) hmem
    have hsame := hrest (set.members.erase v.address) (Finset.notMem_erase _ _)
    rw [Finset.insert_eq_of_mem hmem]
    simp only [tablePower] at hsame hold hnew ⊢
    rw [hself] at hnew
    omega
  · next hmem =>
    have hsum : (set.push v).tablePower (insert v.address set.members)
        = v.votingPower.toNat + (set.push v).tablePower set.members := by
      rw [tablePower, Finset.sum_insert hmem, hself]
      rfl
    rw [hsum, hrest _ hmem]
    omega

theorem tablePower_foldl_le (vs : List Validator) (set : ValidatorSet) :
    (vs.foldl push set).tablePower (vs.foldl push set).members
      ≤ set.tablePower set.members + powers vs := by
  induction vs generalizing set with
  | nil => exact Nat.le_refl _
  | cons v vs ih =>
    have hone := tablePower_push set v
    have hrest := ih (set.push v)
    have hpowers : powers (v :: vs) = v.votingPower.toNat + powers vs := rfl
    rw [List.foldl_cons]
    omega

theorem tablePower_foldl_eq (vs : List Validator) (set : ValidatorSet)
    (hnodup : (set.validators ++ vs.map Validator.address).Nodup) :
    (vs.foldl push set).tablePower (vs.foldl push set).members
      = set.tablePower set.members + powers vs := by
  induction vs generalizing set with
  | nil => rfl
  | cons v vs ih =>
    have hnew : v.address ∉ set.members := by
      intro hmem
      have hdisjoint := List.disjoint_of_nodup_append hnodup
      exact hdisjoint (List.mem_toFinset.mp hmem) (List.mem_cons_self ..)
    have hone := tablePower_push set v
    rw [if_neg hnew] at hone
    have hpowers : powers (v :: vs) = v.votingPower.toNat + powers vs := rfl
    have hrest := ih (set.push v) (by
      show ((set.validators ++ [v.address]) ++ _).Nodup
      rw [List.append_assoc]
      exact hnodup)
    rw [List.foldl_cons, hrest]
    omega

/-- The powers as they were put in, in order. -/
theorem getVotingPower_foldl (vs : List Validator) (set : ValidatorSet)
    (hnodup : (vs.map Validator.address).Nodup) (hv : v ∈ vs) :
    (vs.foldl push set).votingPower.lookup v.address = some v.votingPower := by
  induction vs using List.reverseRecOn with
  | nil => cases hv
  | append_singleton vs last ih =>
    rw [List.map_append] at hnodup
    rw [List.foldl_append]
    show ((vs.foldl push set).votingPower.insert last.address last.votingPower).lookup _ = _
    rcases List.mem_append.mp hv with hv | hv
    · have hne : v.address ≠ last.address := fun heq =>
        List.disjoint_of_nodup_append hnodup (List.mem_map_of_mem hv)
          (heq ▸ List.mem_singleton_self _)
      rw [Finmap.lookup_insert_of_ne _ hne]
      exact ih hnodup.of_append_left hv
    · rw [List.mem_singleton.mp hv, Finmap.lookup_insert]

section From

variable {now epoch : UInt64} {validators : List Validator} {selection : ValidatorSelection}

theorem tablePower_new (now epoch : UInt64) (selection : ValidatorSelection) :
    (new now epoch selection).tablePower (new now epoch selection).members = 0 := rfl

theorem tablePower_le :
    (fromValidators now epoch validators selection).tablePower
      (fromValidators now epoch validators selection).members ≤ powers (chosen validators) := by
  have h := tablePower_foldl_le (chosen validators) (new now epoch selection)
  rwa [tablePower_new, Nat.zero_add] at h

theorem tablePower_eq (hnodup : ((chosen validators).map Validator.address).Nodup) :
    (fromValidators now epoch validators selection).tablePower
      (fromValidators now epoch validators selection).members = powers (chosen validators) := by
  have h := tablePower_foldl_eq (chosen validators) (new now epoch selection) hnodup
  rwa [tablePower_new, Nat.zero_add] at h

/-- Distinct addresses stay distinct through the choice. -/
theorem chosen_nodup (h : (validators.map Validator.address).Nodup) :
    ((chosen validators).map Validator.address).Nodup := by
  refine ((List.take_sublist _ _).map _).nodup ?_
  rw [((List.mergeSort_perm _ _).map Validator.address).nodup_iff]
  exact (List.filter_sublist.map _).nodup h

end From

end ValidatorSet

end Pyrax.Staking
