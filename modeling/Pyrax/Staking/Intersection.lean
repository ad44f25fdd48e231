import Pyrax.Base.Weights
import Pyrax.Staking.Snapshot

/-!
# Quorums of an epoch meet

What makes a quorum of `staking/validator.rs` safe: it can be reached, and any two sets of
members that reach it have more than a third of the total in common. Two thirds and one
more are enough for that as long as the total is what the members have.

`from_validators` adds the total with `+=`, while the powers it adds are themselves sums
that saturate. When the total wraps, the quorum is made of a total that is too small, and
two quorums need have nobody in common: `quorums_meet_iff`.
-/

namespace Pyrax.Staking

open Base

namespace ValidatorSet

/-- A quorum can be reached, and two of them share more than a third of the total. -/
structure QuorumsMeet (set : ValidatorSet) : Prop where
  reachable : set.quorum ≤ set.totalVotingPower
  meet : ∀ A ⊆ set.members, ∀ B ⊆ set.members, set.quorum.toNat ≤ set.tablePower A →
    set.quorum.toNat ≤ set.tablePower B → set.totalVotingPower.toNat < 3 * set.tablePower (A ∩ B)

variable {set : ValidatorSet}

/-- Below `2 ^ 63` doubling the total does not wrap. -/
theorem toNat_quorum (h : set.totalVotingPower.toNat < 2 ^ 63) :
    set.quorum.toNat = set.totalVotingPower.toNat * 2 / 3 + 1 := by
  have hdouble : (set.totalVotingPower * 2).toNat = set.totalVotingPower.toNat * 2 := by
    rw [UInt64.toNat_mul]
    exact Nat.mod_eq_of_lt (by show _ * 2 < _; omega)
  have hthird : (set.totalVotingPower * 2 / 3).toNat = set.totalVotingPower.toNat * 2 / 3 := by
    rw [UInt64.toNat_div, hdouble]
    rfl
  rw [quorum, Word.toNat_add_of_lt, hthird]
  · rfl
  · rw [hthird]
    show _ + 1 < _
    omega

/-- Members who have no more than the total. -/
theorem quorumsMeet_of_le (hpos : 1 ≤ set.totalVotingPower.toNat)
    (hlt : set.totalVotingPower.toNat < 2 ^ 63)
    (hle : set.tablePower set.members ≤ set.totalVotingPower.toNat) : set.QuorumsMeet := by
  have hquorum := toNat_quorum hlt
  constructor
  · rw [UInt64.le_iff_toNat_le, hquorum]
    omega
  · intro A hA B hB hqA hqB
    exact Weights.quorums_meet hle (by omega) hA hB hqA hqB

/-- Members who have more than it by what one of them can have. -/
theorem not_quorumsMeet_of_lt (hpos : 1 ≤ set.totalVotingPower.toNat)
    (hlt : set.totalVotingPower.toNat < 2 ^ 63)
    (hheavy : set.totalVotingPower.toNat + 2 ^ 64 ≤ set.tablePower set.members) :
    ¬ set.QuorumsMeet := by
  intro h
  have hquorum := toNat_quorum hlt
  have hpower : 2 ^ 64 + set.quorum.toNat ≤ set.tablePower set.members := by omega
  have hquorumPos : 0 < set.quorum.toNat := by omega
  obtain ⟨A, hA, B, hB, hqA, hqB, hnone⟩ := Weights.exists_disjoint_quorums
    (fun a => (set.getVotingPower a).toNat) (2 ^ 64) hquorumPos (by omega)
    (fun a _ => UInt64.toNat_lt _) hpower
  have hmeet := h.meet A hA B hB hqA hqB
  rw [hnone] at hmeet
  exact absurd hmeet (Nat.not_lt_zero _)

variable {now epoch : UInt64} {validators : List Validator} {selection : ValidatorSelection}

theorem not_quorumsMeet_of_wraps
    (hpos : 1 ≤ (fromValidators now epoch validators selection).totalVotingPower.toNat)
    (hlt : (fromValidators now epoch validators selection).totalVotingPower.toNat < 2 ^ 63)
    (hnodup : ((chosen validators).map Validator.address).Nodup)
    (hwraps : 2 ^ 64 ≤ powers (chosen validators)) :
    ¬ (fromValidators now epoch validators selection).QuorumsMeet := by
  refine not_quorumsMeet_of_lt hpos hlt ?_
  rw [tablePower_eq hnodup, total_fromValidators]
  omega

/-- **Quorum intersection.** For a set built from any validators, with a total from one to
`2 ^ 63`: its quorums meet if the powers that were added up are below `2 ^ 64`, and where no
address was added twice only then. -/
theorem quorums_meet_iff (now epoch : UInt64) (validators : List Validator)
    (selection : ValidatorSelection)
    (hpos : 1 ≤ (fromValidators now epoch validators selection).totalVotingPower.toNat)
    (hlt : (fromValidators now epoch validators selection).totalVotingPower.toNat < 2 ^ 63) :
    (powers (chosen validators) < 2 ^ 64 →
      (fromValidators now epoch validators selection).QuorumsMeet) ∧
    (((chosen validators).map Validator.address).Nodup →
      ((fromValidators now epoch validators selection).QuorumsMeet ↔
        powers (chosen validators) < 2 ^ 64)) := by
  have hmeets : powers (chosen validators) < 2 ^ 64 →
      (fromValidators now epoch validators selection).QuorumsMeet := by
    intro hfits
    refine quorumsMeet_of_le hpos hlt ?_
    rw [total_fromValidators, Nat.mod_eq_of_lt hfits]
    exact tablePower_le
  refine ⟨hmeets, fun hnodup => ⟨fun h => ?_, hmeets⟩⟩
  by_contra hwraps
  exact not_quorumsMeet_of_wraps hpos hlt hnodup (Nat.le_of_not_lt hwraps) h

/-! ## Two that meet and two that do not -/

/-- An active validator that has staked this much itself. -/
def activeValidator (i : UInt8) (stake : UInt64) : Validator :=
  { Validator.new 0 (testAddress i) (testAddress i) (Vector.replicate 32 0) stake 500 "" with
    status := .active }

/-- A list that is in order and short enough is chosen as it stands. -/
theorem chosen_of_sorted (hactive : validators.filter (fun v => v.status = .active) = validators)
    (hsorted : validators.Pairwise fun a b => b.votingPower ≤ a.votingPower)
    (hlength : validators.length ≤ MAX_ACTIVE_VALIDATORS) : chosen validators = validators := by
  rw [chosen, hactive, List.mergeSort_of_pairwise, List.take_of_length_le hlength]
  exact hsorted.imp fun h => decide_eq_true h

/-- The three of `test_quorum_calculation`. -/
def threeEqual : List Validator :=
  [activeValidator 1 100, activeValidator 2 100, activeValidator 3 100]

theorem quorums_meet_three :
    (fromValidators 0 1 threeEqual .roundRobin).QuorumsMeet ∧
      (fromValidators 0 1 threeEqual .roundRobin).totalVotingPower = 300 := by
  have hchosen : chosen threeEqual = threeEqual :=
    chosen_of_sorted (by decide) (by decide) (by decide)
  have htotal : (fromValidators 0 1 threeEqual .roundRobin).totalVotingPower.toNat = 300 := by
    rw [total_fromValidators, hchosen]
    decide
  have hfits : powers (chosen threeEqual) < 2 ^ 64 := by
    rw [hchosen]
    decide
  exact ⟨(quorums_meet_iff 0 1 threeEqual .roundRobin (by omega) (by omega)).1 hfits,
    UInt64.toNat_inj.mp htotal⟩

/-- Two with `2 ^ 63` each and one with three: the total is three, and each of the two is a
quorum alone. -/
def wrapping : List Validator :=
  [activeValidator 1 0x8000000000000000, activeValidator 2 0x8000000000000000,
    activeValidator 3 3]

theorem quorums_do_not_meet :
    (fromValidators 0 1 wrapping .weightedRandom).totalVotingPower = 3 ∧
      ¬ (fromValidators 0 1 wrapping .weightedRandom).QuorumsMeet := by
  have hchosen : chosen wrapping = wrapping := chosen_of_sorted (by decide) (by decide) (by decide)
  have htotal : (fromValidators 0 1 wrapping .weightedRandom).totalVotingPower.toNat = 3 := by
    rw [total_fromValidators, hchosen]
    decide
  refine ⟨UInt64.toNat_inj.mp htotal, not_quorumsMeet_of_wraps (by omega) (by omega) ?_ ?_⟩
  · rw [hchosen]
    decide
  · rw [hchosen]
    decide

end ValidatorSet

end Pyrax.Staking
